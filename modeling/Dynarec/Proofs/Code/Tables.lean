import Dynarec.Code.Blocks
import Dynarec.Code.Links

/-!
# Reading the tables after a change

What the block table and the link table answer after each of their operations.  The exits of the
link table are indexed by the address they lead to; `Links.Indexed` says that the index has every
owner of an exit, so that going through the index reaches every exit (`Links.mem_exitsTo`,
`Links.mem_exitsOf_eraseLinksTo`).
-/

namespace Dynarec

/-- Reading a map compares the key that was written to the key that is read. -/
theorem compare_eq_iff_eq_symm {α : Type} [Ord α] [Std.LawfulEqOrd α] {a b : α} :
    compare a b = .eq ↔ b = a := by
  rw [Std.LawfulEqCmp.compare_eq_iff_eq]
  exact eq_comm

/-! ## Blocks -/

namespace Blocks

variable {t : Blocks}

/-- Setting where one body starts leaves the other entries. -/
theorem get?_setTarget (t : Blocks) (num target m : Nat) :
    (t.setTarget num target).get? m =
      if m = num then (t.get? m).map fun e => { e with target := some target } else t.get? m := by
  simp only [setTarget, modify, get?, Array.getElem?_modify]
  by_cases h : num = m
  · simp [h]
  · simp [h, Ne.symm h]

@[simp] theorem find?_setTarget (t : Blocks) (num target : Nat) (start : UInt32) :
    (t.setTarget num target).find? start = t.find? start := rfl

/-- The next number is free. -/
theorem get?_size (t : Blocks) : t.get? t.size = none :=
  Array.getElem?_size

/-- A block is found under its number with the entry that was given. -/
theorem get?_add (t : Blocks) (e : BlockEntry) (m : Nat) :
    (t.add e).2.get? m = if m = t.size then some e else t.get? m := by
  simp only [add, get?, size]
  rw [Array.getElem?_push]
  rfl

/-- A block stands for its address from then on, whether or not its entry is valid. -/
theorem find?_add (t : Blocks) (e : BlockEntry) (start : UInt32) :
    (t.add e).2.find? start = if start = e.block.start then some t.size else t.find? start := by
  simp only [add, find?, Std.TreeMap.getElem?_insert, compare_eq_iff_eq_symm]

/-- Invalidating a block takes its validity, and leaves the other entries. -/
theorem get?_invalidate (t : Blocks) (num m : Nat) :
    (t.invalidate num).get? m =
      if m = num then (t.get? m).map fun e => { e with valid := false } else t.get? m := by
  rw [invalidate]
  split
  · rename_i hnone
    by_cases h : m = num
    · simp [h, hnone]
    · simp [h]
  · simp only [get?, Array.getElem?_modify]
    by_cases h : num = m
    · simp [h]
    · simp [h, Ne.symm h]

/-- An invalidated block no longer stands for its address; another one that does stays. -/
theorem find?_invalidate (t : Blocks) (num : Nat) (start : UInt32) :
    (t.invalidate num).find? start =
      if t.find? start = some num ∧ (t.get? num).map (·.block.start) = some start then none
      else t.find? start := by
  rw [invalidate]
  split
  · rename_i hnone
    simp [hnone]
  · rename_i e he
    simp only [he, Option.map_some, Option.some.injEq, find?]
    by_cases hstart : e.block.start = start
    · subst hstart
      by_cases hnum : t.byStart[e.block.start]? = some num
      · simp [hnum]
      · simp [hnum]
    · have hne : compare e.block.start start ≠ .eq := by
        rw [Ne, Std.LawfulEqCmp.compare_eq_iff_eq]
        exact hstart
      by_cases hnum : t.byStart[e.block.start]? = some num
      · simp [hnum, Std.TreeMap.getElem?_erase, hne, hstart]
      · simp [hnum, hstart]

/-- After a clear no block has a body, and all are what they were otherwise. -/
theorem get?_resetTargets (t : Blocks) (m : Nat) :
    t.resetTargets.get? m = (t.get? m).map fun e => { e with target := none } := by
  simp [resetTargets, get?]

@[simp] theorem find?_resetTargets (t : Blocks) (start : UInt32) :
    t.resetTargets.find? start = t.find? start := rfl

/-- Invalidating an invalid block leaves the block table as it is. -/
theorem invalidate_eq_self {t : Blocks} {num : Nat} {entry : BlockEntry}
    (hfound : t.get? num = some entry) (hinvalid : entry.valid = false)
    (hfind : t.find? entry.block.start ≠ some num) : t.invalidate num = t := by
  simp only [invalidate, hfound, if_neg hfind]
  have hentries : t.entries.modify num (fun e => { e with valid := false }) = t.entries := by
    refine Array.ext_getElem? fun m => ?_
    rw [Array.getElem?_modify]
    split
    · rename_i heq
      subst heq
      have hentry : t.entries[num]? = some entry := hfound
      rw [hentry, Option.map_some, ← hinvalid]
    · rfl
  rw [hentries]

end Blocks

/-! ## Links -/

namespace Links

variable {t : Links}

@[simp] theorem native?_empty (num : Nat) : Links.empty.native? num = none := by
  simp [native?, empty]

@[simp] theorem exitsOf_empty (owner : Nat) : Links.empty.exitsOf owner = [] := by
  simp [exitsOf, empty]

/-- A block gets its entries, and the others keep theirs. -/
theorem native?_setNative (t : Links) (num : Nat) (n : Native) (m : Nat) :
    (t.setNative num n).native? m = if m = num then some n else t.native? m := by
  simp only [setNative, native?, Std.TreeMap.getElem?_insert, compare_eq_iff_eq_symm]

/-- A block loses its entries, and the others keep theirs. -/
theorem native?_eraseBlock (t : Links) (num m : Nat) :
    (t.eraseBlock num).native? m = if m = num then none else t.native? m := by
  simp only [eraseBlock, native?, Std.TreeMap.getElem?_erase, compare_eq_iff_eq_symm]

@[simp] theorem native?_eraseLinksTo (t : Links) (dest : UInt32) (num : Nat) :
    (t.eraseLinksTo dest).native? num = t.native? num := rfl

/-- Recording exits does not change entries. -/
theorem native?_foldl_addExit (t : Links) (es : List Exit) (num : Nat) :
    (es.foldl addExit t).native? num = t.native? num := by
  induction es generalizing t with
  | nil => rfl
  | cons e es ih => exact ih (t.addExit e)

@[simp] theorem exitsOf_setNative (t : Links) (num : Nat) (n : Native) (owner : Nat) :
    (t.setNative num n).exitsOf owner = t.exitsOf owner := rfl

@[simp] theorem ownersOf_setNative (t : Links) (num : Nat) (n : Native) (dest : UInt32) :
    (t.setNative num n).ownersOf dest = t.ownersOf dest := rfl

/-! ### Keys that are bound to lists -/

section

variable {κ α : Type} [Ord κ] [Std.TransOrd κ] [Std.LawfulEqOrd κ] [DecidableEq κ]

/-- What a map of lists has for a key after an insertion. -/
theorem getD_insert (m : Std.TreeMap κ (List α)) (k x : κ) (v : List α) :
    (m.insert k v).getD x [] = if x = k then v else m.getD x [] := by
  rw [Std.TreeMap.getD_insert]
  by_cases h : x = k
  · simp [h]
  · have hne : compare k x ≠ .eq := fun heq => h (Std.LawfulEqOrd.eq_of_compare heq).symm
    simp [h, hne]

/-- What a map of lists has for a key after an erasure. -/
theorem getD_erase (m : Std.TreeMap κ (List α)) (k x : κ) :
    (m.erase k).getD x [] = if x = k then [] else m.getD x [] := by
  rw [Std.TreeMap.getD_erase]
  by_cases h : x = k
  · simp [h]
  · have hne : compare k x ≠ .eq := fun heq => h (Std.LawfulEqOrd.eq_of_compare heq).symm
    simp [h, hne]

/-- An empty list and no list read the same. -/
theorem getD_put (m : Std.TreeMap κ (List α)) (k x : κ) (v : List α) :
    (put m k v).getD x [] = if x = k then v else m.getD x [] := by
  rw [put]
  split
  · rename_i hempty
    rw [getD_erase, List.isEmpty_iff.mp hempty]
  · exact getD_insert m k x v

end

/-! ### Exits -/

/-- A recorded exit is the last one of its owner. -/
theorem exitsOf_addExit (t : Links) (e : Exit) (owner : Nat) :
    (t.addExit e).exitsOf owner =
      if owner = e.owner then t.exitsOf owner ++ [e] else t.exitsOf owner := by
  simp only [addExit, exitsOf]
  rw [getD_insert]
  split
  · rename_i h
    rw [h]
  · rfl

/-- The owner of a recorded exit is listed once for its destination. -/
theorem ownersOf_addExit (t : Links) (e : Exit) (dest : UInt32) :
    (t.addExit e).ownersOf dest =
      if dest = e.dest then
        if (t.ownersOf e.dest).contains e.owner then t.ownersOf e.dest
        else t.ownersOf e.dest ++ [e.owner]
      else t.ownersOf dest :=
  getD_insert _ _ _ _

/-- Who is listed for a destination once an exit has been recorded. -/
theorem mem_ownersOf_addExit (t : Links) (e : Exit) (dest : UInt32) (owner : Nat) :
    owner ∈ (t.addExit e).ownersOf dest ↔
      owner ∈ t.ownersOf dest ∨ (owner = e.owner ∧ dest = e.dest) := by
  rw [ownersOf_addExit]
  by_cases hdest : dest = e.dest
  · subst hdest
    by_cases hmem : e.owner ∈ t.ownersOf e.dest
    · rw [if_pos rfl, if_pos (List.contains_iff_mem.mpr hmem)]
      constructor
      · exact .inl
      · rintro (h | ⟨rfl, -⟩)
        · exact h
        · exact hmem
    · rw [if_pos rfl, if_neg (mt List.contains_iff_mem.mp hmem)]
      simp
  · simp [hdest]

/-- Erasing a block takes the exits that it owns off the record. -/
theorem exitsOf_eraseBlock (t : Links) (num owner : Nat) :
    (t.eraseBlock num).exitsOf owner = if owner = num then [] else t.exitsOf owner :=
  getD_erase t.byOwner num owner

/-- Going through exits takes an owner out of the lists of their addresses. -/
theorem getD_dropOwner (num : Nat) (es : List Exit) (m : Std.TreeMap UInt32 (List Nat))
    (dest : UInt32) :
    (dropOwner num m es).getD dest [] =
      if es.any (·.dest = dest) then (m.getD dest []).filter (· ≠ num) else m.getD dest [] := by
  induction es generalizing m with
  | nil => simp [dropOwner]
  | cons e es ih =>
    rw [dropOwner, ih, getD_put]
    by_cases h : dest = e.dest
    · subst h
      simp
    · simp [h, Ne.symm h]

/-- Taking one owner out leaves all others. -/
theorem mem_dropOwner {num owner : Nat} (hne : owner ≠ num) (es : List Exit)
    (m : Std.TreeMap UInt32 (List Nat)) (dest : UInt32) :
    owner ∈ (dropOwner num m es).getD dest [] ↔ owner ∈ m.getD dest [] := by
  rw [getD_dropOwner]
  split
  · simp [hne]
  · rfl

/-- Going through owners takes the exits to an address out of the lists of those owners. -/
theorem getD_dropDest (dest : UInt32) (owners : List Nat) (m : Std.TreeMap Nat (List Exit))
    (owner : Nat) :
    (dropDest dest m owners).getD owner [] =
      if owner ∈ owners then (m.getD owner []).filter (·.dest ≠ dest) else m.getD owner [] := by
  induction owners generalizing m with
  | nil => simp [dropDest]
  | cons o owners ih =>
    rw [dropDest, ih, getD_put]
    by_cases h : owner = o
    · subst h
      simp
    · simp [h]

/-- Erasing the links to an address leaves no owner listed for it. -/
theorem ownersOf_eraseLinksTo (t : Links) (dest pc : UInt32) :
    (t.eraseLinksTo dest).ownersOf pc = if pc = dest then [] else t.ownersOf pc :=
  getD_erase t.ownersByDest dest pc

/-! ### The index -/

/-- Every exit is listed under its owner, and the index of its address has the owner. -/
def Indexed (t : Links) : Prop :=
  ∀ owner, ∀ e ∈ t.exitsOf owner, e.owner = owner ∧ owner ∈ t.ownersOf e.dest

namespace Indexed

/-- An empty table is indexed. -/
theorem empty : Links.empty.Indexed := by
  intro owner e he
  rw [exitsOf_empty] at he
  cases he

theorem setNative (h : t.Indexed) (num : Nat) (n : Native) : (t.setNative num n).Indexed := h

/-- Recording an exit lists its owner. -/
theorem addExit (h : t.Indexed) (e : Exit) : (t.addExit e).Indexed := by
  intro owner e' he'
  rw [exitsOf_addExit] at he'
  rw [mem_ownersOf_addExit]
  split at he'
  · rename_i howner
    rcases List.mem_append.mp he' with hold | hnew
    · exact ⟨(h owner e' hold).1, .inl (h owner e' hold).2⟩
    · obtain rfl := List.mem_singleton.mp hnew
      exact ⟨howner.symm, .inr ⟨howner, rfl⟩⟩
  · exact ⟨(h owner e' he').1, .inl (h owner e' he').2⟩

/-- So does recording exits one after the other. -/
theorem foldl_addExit (h : t.Indexed) (es : List Exit) : (es.foldl Links.addExit t).Indexed := by
  induction es generalizing t with
  | nil => exact h
  | cons e es ih => exact ih (h.addExit e)

/-- Erasing a block keeps the index in step. -/
theorem eraseBlock (h : t.Indexed) (num : Nat) : (t.eraseBlock num).Indexed := by
  intro owner e he
  rw [exitsOf_eraseBlock] at he
  split at he
  · cases he
  · rename_i hne
    exact ⟨(h owner e he).1, (mem_dropOwner hne _ _ _).mpr (h owner e he).2⟩

/-- Erasing the links to an address takes them out of every list. -/
theorem exitsOf_eraseLinksTo (h : t.Indexed) (dest : UInt32) (owner : Nat) :
    (t.eraseLinksTo dest).exitsOf owner = (t.exitsOf owner).filter (·.dest ≠ dest) := by
  simp only [Links.eraseLinksTo, exitsOf]
  rw [getD_dropDest]
  split
  · rfl
  · rename_i hnot
    refine (List.filter_eq_self.mpr fun e he => ?_).symm
    simp only [ne_eq, decide_not, Bool.not_eq_eq_eq_not, Bool.not_true, decide_eq_false_iff_not]
    rintro rfl
    exact hnot (h owner e he).2

/-- Erasing the links to an address takes exactly the exits to it off the record. -/
theorem mem_exitsOf_eraseLinksTo (h : t.Indexed) {dest : UInt32} {owner : Nat} {e : Exit} :
    e ∈ (t.eraseLinksTo dest).exitsOf owner ↔ e ∈ t.exitsOf owner ∧ e.dest ≠ dest := by
  rw [h.exitsOf_eraseLinksTo]
  simp

/-- Erasing the links to an address keeps the index in step. -/
theorem eraseLinksTo (h : t.Indexed) (dest : UInt32) : (t.eraseLinksTo dest).Indexed := by
  intro owner e he
  obtain ⟨hmem, hne⟩ := h.mem_exitsOf_eraseLinksTo.mp he
  refine ⟨(h owner e hmem).1, ?_⟩
  rw [ownersOf_eraseLinksTo, if_neg hne]
  exact (h owner e hmem).2

/-- Going through the index reaches every exit to an address. -/
theorem mem_exitsTo (h : t.Indexed) {dest : UInt32} {e : Exit} :
    e ∈ t.exitsTo dest ↔ e ∈ t.exitsOf e.owner ∧ e.dest = dest := by
  simp only [exitsTo, List.mem_flatMap, List.mem_filter, decide_eq_true_eq]
  constructor
  · rintro ⟨owner, -, he, hdest⟩
    rw [(h owner e he).1]
    exact ⟨he, hdest⟩
  · rintro ⟨he, rfl⟩
    exact ⟨e.owner, (h e.owner e he).2, he, rfl⟩

/-- Erasing the links to an address takes them out of the index and changes no other list of it. -/
theorem exitsTo_eraseLinksTo (h : t.Indexed) (dest pc : UInt32) :
    (t.eraseLinksTo dest).exitsTo pc = if pc = dest then [] else t.exitsTo pc := by
  rw [exitsTo, ownersOf_eraseLinksTo]
  split
  · rfl
  · rename_i hne
    simp only [exitsTo, h.exitsOf_eraseLinksTo, List.filter_filter]
    refine congrArg (fun exits => (t.ownersOf pc).flatMap exits) (funext fun owner => ?_)
    refine List.filter_congr fun e _ => ?_
    by_cases hpc : e.dest = pc
    · simp [hpc, hne]
    · simp [hpc]

/-- No exits to an address are found if no owner has one. -/
theorem exitsTo_eq_nil (h : t.Indexed) {dest : UInt32} :
    t.exitsTo dest = [] ↔ ∀ owner, ∀ e ∈ t.exitsOf owner, e.dest ≠ dest := by
  simp only [List.eq_nil_iff_forall_not_mem, h.mem_exitsTo]
  constructor
  · intro hnone owner e he hdest
    exact hnone e ⟨(h owner e he).1.symm ▸ he, hdest⟩
  · rintro hne e ⟨he, hdest⟩
    exact hne e.owner e he hdest

end Indexed

/-- Erasing a block that has no exits changes no list of exits. -/
theorem eraseBlock_of_no_exits {num : Nat} (hnone : t.exitsOf num = []) :
    (t.eraseBlock num).exitsOf = t.exitsOf ∧ (t.eraseBlock num).exitsTo = t.exitsTo := by
  have hexits : (t.eraseBlock num).exitsOf = t.exitsOf := by
    funext owner
    rw [exitsOf_eraseBlock]
    split
    · rename_i heq
      rw [heq, hnone]
    · rfl
  have howners : (t.eraseBlock num).ownersOf = t.ownersOf := by
    funext dest
    simp only [ownersOf, eraseBlock, hnone, dropOwner]
  refine ⟨hexits, ?_⟩
  funext dest
  rw [exitsTo, exitsTo, howners, hexits]

/-- Exits of one owner are recorded in order, behind those that it has. -/
theorem exitsOf_foldl_addExit (t : Links) {num : Nat} {es : List Exit}
    (hes : ∀ e ∈ es, e.owner = num) (owner : Nat) :
    (es.foldl addExit t).exitsOf owner =
      if owner = num then t.exitsOf owner ++ es else t.exitsOf owner := by
  induction es generalizing t with
  | nil => simp
  | cons e es ih =>
    rw [List.foldl_cons, ih _ fun e' he' => hes e' (List.mem_cons_of_mem _ he'), exitsOf_addExit,
      hes e List.mem_cons_self]
    split
    · rw [List.append_assoc]
      rfl
    · rfl

end Links

end Dynarec
