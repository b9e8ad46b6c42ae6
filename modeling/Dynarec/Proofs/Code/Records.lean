import Mathlib.Data.List.Perm.Basic
import Dynarec.Proofs.Code.Tables

/-!
# The link table as a list of exits

What a client sees of the link table is one list of exits: adding an exit appends it, the two ways
of erasing take out the exits to an address or those of an owner, and every question is answered
from the list (`Links.table_answers_from_records`).

The table keeps two indexes in place of the list, exits by owner and owners by address, and takes
exits out along either of them.  `Links.Keeps` says what the indexes hold of the list.  Every
operation keeps that (`Keeps.step`), and so does any sequence of them (`Keeps.run`).
-/

namespace Dynarec

/-- An operation on the link table. -/
inductive LinkOp where
  | addExit (e : Exit)
  | setNative (num : Nat) (n : Native)
  | eraseLinksTo (dest : UInt32)
  | eraseBlock (num : Nat)
  | clear
  deriving DecidableEq, Repr

namespace LinkOp

/-- The table after an operation. -/
def apply (t : Links) : LinkOp → Links
  | addExit e => t.addExit e
  | setNative num n => t.setNative num n
  | eraseLinksTo dest => t.eraseLinksTo dest
  | eraseBlock num => t.eraseBlock num
  | clear => .empty

/-- The list of exits after an operation. -/
def record (exits : List Exit) : LinkOp → List Exit
  | addExit e => exits ++ [e]
  | setNative _ _ => exits
  | eraseLinksTo dest => exits.filter (·.dest ≠ dest)
  | eraseBlock num => exits.filter (·.owner ≠ num)
  | clear => []

end LinkOp

namespace Links

/-! ## Maps without empty lists -/

/-- No key is bound to the empty list. -/
def NoEmpty {κ α : Type} [Ord κ] (m : Std.TreeMap κ (List α)) : Prop :=
  ∀ k : κ, m[k]? ≠ some []

namespace NoEmpty

variable {κ α : Type} [Ord κ] [Std.TransOrd κ] {m : Std.TreeMap κ (List α)}

theorem empty : NoEmpty (∅ : Std.TreeMap κ (List α)) := by
  intro k
  rw [Std.TreeMap.getElem?_emptyc]
  simp

theorem insert (h : NoEmpty m) (k : κ) {v : List α} (hv : v ≠ []) : NoEmpty (m.insert k v) := by
  intro k'
  rw [Std.TreeMap.getElem?_insert]
  split
  · simpa using hv
  · exact h k'

theorem erase (h : NoEmpty m) (k : κ) : NoEmpty (m.erase k) := by
  intro k'
  rw [Std.TreeMap.getElem?_erase]
  split
  · simp
  · exact h k'

theorem put (h : NoEmpty m) (k : κ) (v : List α) : NoEmpty (Links.put m k v) := by
  rw [Links.put]
  split
  · exact h.erase k
  · rename_i hv
    exact h.insert k (mt List.isEmpty_iff.mpr hv)

/-- Taking out all exits to an address leaves no empty list. -/
theorem dropDest {m : Std.TreeMap Nat (List Exit)} (h : NoEmpty m) (dest : UInt32)
    (owners : List Nat) : NoEmpty (Links.dropDest dest m owners) := by
  induction owners generalizing m with
  | nil => exact h
  | cons owner owners ih => exact ih (h.put owner _)

/-- Taking out all exits of an owner leaves no empty list. -/
theorem dropOwner {m : Std.TreeMap UInt32 (List Nat)} (h : NoEmpty m) (owner : Nat)
    (es : List Exit) : NoEmpty (Links.dropOwner owner m es) := by
  induction es generalizing m with
  | nil => exact h
  | cons e es ih => exact ih (h.put e.dest _)

end NoEmpty

/-! ## What the indexes hold -/

/-- The indexes hold a list of exits: each owner has its exits in their order, each address has
every owner of an exit to it once, and nothing is bound to an empty list. -/
structure Keeps (t : Links) (exits : List Exit) : Prop where
  byOwner : ∀ owner, t.exitsOf owner = exits.filter (·.owner = owner)
  owners : ∀ dest owner, owner ∈ t.ownersOf dest ↔ ∃ e ∈ exits, e.owner = owner ∧ e.dest = dest
  nodup : ∀ dest, (t.ownersOf dest).Nodup
  noEmptyExits : NoEmpty t.byOwner
  noEmptyOwners : NoEmpty t.ownersByDest

namespace Keeps

variable {t : Links} {exits : List Exit}

/-- An empty table has no exits. -/
theorem empty : Links.empty.Keeps [] where
  byOwner owner := by simp
  owners dest owner := by simp [ownersOf, Links.empty]
  nodup dest := by simp [ownersOf, Links.empty]
  noEmptyExits := .empty
  noEmptyOwners := .empty

/-- The exits of an owner are those on the list that belong to it. -/
theorem mem_exitsOf (h : t.Keeps exits) {owner : Nat} {e : Exit} :
    e ∈ t.exitsOf owner ↔ e ∈ exits ∧ e.owner = owner := by
  rw [h.byOwner]
  simp

/-- The two indexes agree. -/
theorem indexed (h : t.Keeps exits) : t.Indexed := by
  intro owner e he
  obtain ⟨hmem, rfl⟩ := h.mem_exitsOf.mp he
  exact ⟨rfl, (h.owners e.dest e.owner).mpr ⟨e, hmem, rfl, rfl⟩⟩

/-- Where the code of a block is does not matter to the exits. -/
theorem setNative (h : t.Keeps exits) (num : Nat) (n : Native) : (t.setNative num n).Keeps exits :=
  ⟨h.byOwner, h.owners, h.nodup, h.noEmptyExits, h.noEmptyOwners⟩

/-- Adding an exit appends it to the list. -/
theorem addExit (h : t.Keeps exits) (e : Exit) : (t.addExit e).Keeps (exits ++ [e]) where
  byOwner owner := by
    rw [exitsOf_addExit, h.byOwner, List.filter_append]
    by_cases howner : e.owner = owner
    · simp [howner]
    · simp [howner, Ne.symm howner]
  owners dest owner := by
    rw [mem_ownersOf_addExit, h.owners]
    constructor
    · rintro (⟨e', he', hrest⟩ | ⟨rfl, rfl⟩)
      · exact ⟨e', List.mem_append_left _ he', hrest⟩
      · exact ⟨e, by simp, rfl, rfl⟩
    · rintro ⟨e', he', rfl, rfl⟩
      rcases List.mem_append.mp he' with hold | hnew
      · exact .inl ⟨e', hold, rfl, rfl⟩
      · obtain rfl := List.mem_singleton.mp hnew
        exact .inr ⟨rfl, rfl⟩
  nodup dest := by
    rw [ownersOf_addExit]
    split
    · split
      · exact h.nodup e.dest
      · rename_i hnew
        -- the owner is put at the end, and only if it is not there
        have habsent : e.owner ∉ t.ownersOf e.dest := mt List.contains_iff_mem.mpr hnew
        refine List.nodup_append.mpr ⟨h.nodup e.dest, by simp, fun owner howner owner' hself => ?_⟩
        obtain rfl := List.mem_singleton.mp hself
        exact fun heq => habsent (heq ▸ howner)
    · exact h.nodup dest
  noEmptyExits := h.noEmptyExits.insert e.owner (by simp)
  noEmptyOwners := by
    refine h.noEmptyOwners.insert e.dest ?_
    split
    · rename_i hold
      exact List.ne_nil_of_mem (List.contains_iff_mem.mp hold)
    · simp

/-- Erasing the links to an address takes the exits to it off the list. -/
theorem eraseLinksTo (h : t.Keeps exits) (dest : UInt32) :
    (t.eraseLinksTo dest).Keeps (exits.filter (·.dest ≠ dest)) where
  byOwner owner := by
    rw [h.indexed.exitsOf_eraseLinksTo, h.byOwner, List.filter_filter, List.filter_filter]
    simp only [Bool.and_comm]
  owners dest' owner := by
    rw [ownersOf_eraseLinksTo]
    split
    · rename_i heq
      subst heq
      refine iff_of_false (by simp) ?_
      rintro ⟨e, he, -, rfl⟩
      simpa using (List.mem_filter.mp he).2
    · rename_i hne
      rw [h.owners]
      constructor
      · rintro ⟨e, he, rfl, rfl⟩
        exact ⟨e, List.mem_filter.mpr ⟨he, by simpa using hne⟩, rfl, rfl⟩
      · rintro ⟨e, he, hrest⟩
        exact ⟨e, (List.mem_filter.mp he).1, hrest⟩
  nodup dest' := by
    rw [ownersOf_eraseLinksTo]
    split
    · exact .nil
    · exact h.nodup dest'
  noEmptyExits := h.noEmptyExits.dropDest dest _
  noEmptyOwners := h.noEmptyOwners.erase dest

/-- A block that is erased is no longer listed for any address: it was listed only for the addresses
of its own exits. -/
theorem ownersOf_eraseBlock (h : t.Keeps exits) (num : Nat) (dest : UInt32) :
    (t.eraseBlock num).ownersOf dest = (t.ownersOf dest).filter (· ≠ num) := by
  have howners : (t.eraseBlock num).ownersOf dest = _ := getD_dropOwner num (t.exitsOf num) _ dest
  rw [howners]
  split
  · rfl
  · rename_i hnone
    refine (List.filter_eq_self.mpr fun owner howner => ?_).symm
    simp only [ne_eq, decide_not, Bool.not_eq_eq_eq_not, Bool.not_true, decide_eq_false_iff_not]
    rintro rfl
    obtain ⟨e, he, hrest⟩ := (h.owners dest owner).mp howner
    exact hnone (List.any_eq_true.mpr ⟨e, h.mem_exitsOf.mpr ⟨he, hrest.1⟩, by simpa using hrest.2⟩)

/-- Erasing a block takes its exits off the list. -/
theorem eraseBlock (h : t.Keeps exits) (num : Nat) :
    (t.eraseBlock num).Keeps (exits.filter (·.owner ≠ num)) where
  byOwner owner := by
    rw [exitsOf_eraseBlock, h.byOwner, List.filter_filter]
    split
    · rename_i heq
      subst heq
      refine (List.filter_eq_nil_iff.mpr fun e _ => ?_).symm
      simp
    · rename_i hne
      refine List.filter_congr fun e _ => ?_
      by_cases howner : e.owner = owner
      · simp [howner, hne]
      · simp [howner]
  owners dest owner := by
    rw [h.ownersOf_eraseBlock, List.mem_filter, h.owners]
    constructor
    · rintro ⟨⟨e, he, rfl, rfl⟩, hne⟩
      exact ⟨e, List.mem_filter.mpr ⟨he, hne⟩, rfl, rfl⟩
    · rintro ⟨e, he, rfl, rfl⟩
      obtain ⟨hmem, hne⟩ := List.mem_filter.mp he
      exact ⟨⟨e, hmem, rfl, rfl⟩, hne⟩
  nodup dest := by
    rw [h.ownersOf_eraseBlock]
    exact (h.nodup dest).filter _
  noEmptyExits := h.noEmptyExits.erase num
  noEmptyOwners := h.noEmptyOwners.dropOwner num _

/-! ## Steps and runs -/

/-- Every operation does to the indexes what it does to the list. -/
theorem step (h : t.Keeps exits) (op : LinkOp) : (op.apply t).Keeps (op.record exits) := by
  cases op with
  | addExit e => exact h.addExit e
  | setNative num n => exact h.setNative num n
  | eraseLinksTo dest => exact h.eraseLinksTo dest
  | eraseBlock num => exact h.eraseBlock num
  | clear => exact .empty

/-- After any operations, the table holds the list that they leave. -/
theorem run (h : t.Keeps exits) (ops : List LinkOp) :
    (ops.foldl LinkOp.apply t).Keeps (ops.foldl LinkOp.record exits) := by
  induction ops generalizing t exits with
  | nil => exact h
  | cons op ops ih => exact ih (h.step op)

/-! ## Answers -/

/-- Going through all classes of a list, each once, gives a permutation of it. -/
theorem perm_flatMap_classes {α κ : Type} [DecidableEq κ] (f : α → κ) {ks : List κ}
    (hnodup : ks.Nodup) {xs : List α} (hcover : ∀ x ∈ xs, f x ∈ ks) :
    (ks.flatMap fun k => xs.filter (f · = k)).Perm xs := by
  induction ks generalizing xs with
  | nil =>
    obtain rfl : xs = [] := List.eq_nil_iff_forall_not_mem.mpr fun x hx => by simpa using hcover x hx
    exact .refl _
  | cons k ks ih =>
    obtain ⟨hk, hks⟩ := List.nodup_cons.mp hnodup
    -- the classes of the other keys are those of the list without the first class
    have hothers : (ks.flatMap fun k' => xs.filter (f · = k')) =
        ks.flatMap fun k' => (xs.filter fun x => !decide (f x = k)).filter (f · = k') := by
      refine List.flatMap_congr fun k' hk' => ?_
      rw [List.filter_filter]
      refine List.filter_congr fun x _ => ?_
      by_cases hx : f x = k'
      · have hne : k' ≠ k := fun heq => hk (heq ▸ hk')
        simp [hx, hne]
      · simp [hx]
    rw [List.flatMap_cons, hothers]
    refine .trans (List.Perm.append_left _ (ih hks fun x hx => ?_))
      (List.filter_append_perm (fun x => decide (f x = k)) xs)
    obtain ⟨hmem, hne⟩ := List.mem_filter.mp hx
    exact (List.mem_cons.mp (hcover x hmem)).resolve_left (by simpa using hne)

/-- The exits to an address are those on the list, in the order of their owners. -/
theorem exitsTo_perm (h : t.Keeps exits) (dest : UInt32) :
    (t.exitsTo dest).Perm (exits.filter (·.dest = dest)) := by
  have hclasses : t.exitsTo dest =
      (t.ownersOf dest).flatMap fun owner =>
        (exits.filter (·.dest = dest)).filter (·.owner = owner) := by
    refine List.flatMap_congr fun owner _ => ?_
    rw [h.byOwner, List.filter_filter, List.filter_filter]
    simp only [Bool.and_comm]
  rw [hclasses]
  refine perm_flatMap_classes Exit.owner (h.nodup dest) fun e he => ?_
  obtain ⟨hmem, hdest⟩ := List.mem_filter.mp he
  exact (h.owners dest e.owner).mpr ⟨e, hmem, rfl, by simpa using hdest⟩

/-- The table counts the exits on the list. -/
theorem exitCount_eq (h : t.Keeps exits) : t.exitCount = exits.length := by
  have hclasses : t.byOwner.toList.flatMap (·.2) =
      t.byOwner.keys.flatMap fun owner => exits.filter (·.owner = owner) := by
    rw [← Std.TreeMap.map_fst_toList_eq_keys, List.flatMap_map]
    refine List.flatMap_congr fun p hp => ?_
    have hbound : t.byOwner[p.1]? = some p.2 := Std.TreeMap.mem_toList_iff_getElem?_eq_some.mp hp
    rw [← h.byOwner, exitsOf, Std.TreeMap.getD_eq_getD_getElem?, hbound]
    rfl
  rw [exitCount, hclasses]
  refine (perm_flatMap_classes Exit.owner Std.TreeMap.nodup_keys fun e he => ?_).length_eq
  -- an owner that is not a key has no exits
  by_contra hkey
  have habsent : t.byOwner[e.owner]? = none :=
    Std.TreeMap.getElem?_eq_none (mt Std.TreeMap.mem_keys.mpr hkey)
  have hexit : e ∈ t.exitsOf e.owner := h.mem_exitsOf.mpr ⟨he, rfl⟩
  rw [exitsOf, Std.TreeMap.getD_eq_getD_getElem?, habsent] at hexit
  cases hexit

end Keeps

/-- After any operations on an empty table, it answers from the list of exits that they leave: the
exits to an address are those of the list, each as often as there, the exits of an owner are those
of the list in their order, the number of exits is the length of the list, and the index lists under
an address exactly the owners that have an exit to it, each once and never none. -/
theorem table_answers_from_records (ops : List LinkOp) :
    let t := ops.foldl LinkOp.apply .empty
    let exits := ops.foldl LinkOp.record []
    (∀ dest, (t.exitsTo dest).Perm (exits.filter (·.dest = dest))) ∧
    (∀ owner, t.exitsOf owner = exits.filter (·.owner = owner)) ∧
    t.exitCount = exits.length ∧
    (∀ dest owner, owner ∈ t.ownersOf dest ↔ ∃ e ∈ exits, e.owner = owner ∧ e.dest = dest) ∧
    (∀ dest, (t.ownersOf dest).Nodup) ∧
    (∀ dest : UInt32, t.ownersByDest[dest]? ≠ some []) := by
  have h := Keeps.empty.run ops
  exact ⟨h.exitsTo_perm, h.byOwner, h.exitCount_eq, h.owners, h.nodup, h.noEmptyOwners⟩

end Links

end Dynarec
