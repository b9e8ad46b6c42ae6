import Dynarec.Proofs.Code.Cells

/-!
# The same code in two places

Code that was made twice, for two places, can differ in few bytes only.  An instruction that is no
branch is the same everywhere, and so is a branch inside the code, whose distance does not depend on
the place; in a branch to a fixed address outside, the distance differs (`Alike`).  Exit sites may
hold anything.  `Parallel` says this of lists, and `Parallel.byte_cases` of the bytes in the cache.
-/

namespace Dynarec

open CodeCache Lower

namespace Insn

/-- A direct branch ends with the four bytes of its distance. -/
theorem getElem?_bytes_of_target? {i : Insn} {t : UInt64} (ht : i.target? = some t) {x : Nat}
    (hx : x + 4 < i.size) (rel rel' : UInt32) : (i.bytes rel)[x]? = (i.bytes rel')[x]? := by
  cases i with
  | call a | jmp a =>
    obtain rfl : x = 0 := by
      have hsize : x + 4 < 5 := hx
      omega
    rfl
  | jcc cond a =>
    have hsize : x + 4 < 6 := hx
    obtain rfl | rfl : x = 0 ∨ x = 1 := by omega
    · rfl
    · rfl
  | _ => cases ht

/-- The distance of a branch inside code does not depend on the place of the code. -/
theorem distance?_addressOf_add (s s' o x n : Nat) :
    distance? (addressOf (s + o) + UInt64.ofNat n) (addressOf (s + x)) =
      distance? (addressOf (s' + o) + UInt64.ofNat n) (addressOf (s' + x)) := by
  have hcancel : ∀ a : UInt64, a + UInt64.ofNat x - (a + UInt64.ofNat o + UInt64.ofNat n) =
      UInt64.ofNat x - (UInt64.ofNat o + UInt64.ofNat n) := by
    intro a
    grind
  rw [distance?, distance?, addressOf_add s, addressOf_add s, addressOf_add s', addressOf_add s',
    hcancel, hcancel]

theorem encode?_moved {i : Insn} {s x : Nat} (ht : i.target? = some (addressOf (s + x)))
    (s' o : Nat) : (i.mapTarget fun _ => addressOf (s' + x)).encode? (addressOf (s' + o)) =
      i.encode? (addressOf (s + o)) := by
  cases i with
  | call a | jmp a | jcc cond a =>
    cases ht
    exact congrArg (Option.map _) (distance?_addressOf_add s' s o x _)
  | _ => cases ht

end Insn

/-- An instruction of code that starts at an offset, and what stands for it in code that starts at
another. -/
inductive Alike (s s' : Nat) (outside : UInt64 → Prop) : Insn → Insn → Prop
  | plain {i : Insn} (hi : i.target? = none) : Alike s s' outside i i
  | outside {i : Insn} {t : UInt64} (hi : i.target? = some t) (ht : outside t) :
    Alike s s' outside i i
  | inside {i : Insn} {x : Nat} (hi : i.target? = some (addressOf (s + x))) :
    Alike s s' outside i (i.mapTarget fun _ => addressOf (s' + x))

/-- The code from a position on, in two places: instructions that are alike, and exit sites. -/
inductive Parallel (s s' : Nat) (outside : UInt64 → Prop) (site : Nat → Prop) :
    Nat → List Insn → List Insn → Prop
  | nil {o : Nat} : Parallel s s' outside site o [] []
  | cons {o : Nat} {i i' : Insn} {is is' : List Insn} (hi : Alike s s' outside i i')
    (h : Parallel s s' outside site (o + i.size) is is') :
    Parallel s s' outside site o (i :: is) (i' :: is')
  | site {o : Nat} {js js' is is' : List Insn} (hsite : site o) (hjs : codeSize js = exitSiteLen)
    (hjs' : codeSize js' = exitSiteLen)
    (h : Parallel s s' outside site (o + exitSiteLen) is is') :
    Parallel s s' outside site o (js ++ is) (js' ++ is')

/-- A position is in the distance of a branch to the outside, which stands there in both lists. -/
def InDistance (outside : UInt64 → Prop) (is is' : List Insn) (x : Nat) : Prop :=
  ∃ before after before' after' i t, is = before ++ i :: after ∧ is' = before' ++ i :: after' ∧
    codeSize before' = codeSize before ∧ i.target? = some t ∧ outside t ∧
    codeSize before + i.size ≤ x + 4 ∧ x < codeSize before + i.size

/-- Two caches have the same byte at a position behind `o`, or it is in an exit site, or in the
distance of a branch to the outside. -/
def ByteCases (c d : CodeCache) (s s' : Nat) (outside : UInt64 → Prop) (site : Nat → Prop) (o : Nat)
    (is is' : List Insn) (x : Nat) : Prop :=
  c.byte (s + (o + x)) = d.byte (s' + (o + x)) ∨
    (∃ a, site a ∧ a ≤ o + x ∧ o + x < a + exitSiteLen) ∨ InDistance outside is is' x

section

variable {s s' o x : Nat} {outside : UInt64 → Prop} {site : Nat → Prop} {i i' : Insn}
  {is is' js js' : List Insn} {c d : CodeCache}

theorem InDistance.append (hjs : codeSize js' = codeSize js) (h : InDistance outside is is' x) :
    InDistance outside (js ++ is) (js' ++ is') (codeSize js + x) := by
  obtain ⟨before, after, before', after', i, t, rfl, rfl, hsame, hi, ht, hlow, hhigh⟩ := h
  refine ⟨js ++ before, after, js' ++ before', after', i, t, by simp, by simp, ?_, hi, ht, ?_, ?_⟩
  · rw [Insn.codeSize_append, Insn.codeSize_append, hjs, hsame]
  · rw [Insn.codeSize_append]
    omega
  · rw [Insn.codeSize_append]
    omega

theorem ByteCases.append (hjs : codeSize js' = codeSize js)
    (h : ByteCases c d s s' outside site (o + codeSize js) is is' x) :
    ByteCases c d s s' outside site o (js ++ is) (js' ++ is') (codeSize js + x) := by
  rw [ByteCases, Nat.add_assoc o] at h
  exact h.imp_right (.imp_right (.append hjs))

theorem Alike.size_eq (h : Alike s s' outside i i') : i'.size = i.size := by
  cases h with
  | plain | outside => rfl
  | inside => exact Insn.size_mapTarget _ _

/-- The bytes of the first instruction that a range holds. -/
theorem CodeCache.Holds.head_bytes (h : c.Holds o (i :: is)) :
    ∃ bs, i.encode? (addressOf o) = some bs ∧ ∀ x < i.size, bs[x]? = some (c.byte (o + x)) := by
  have hhead : c.Holds o [i] := (show c.Holds o ([i] ++ is) from h).left
  obtain ⟨bs, rest, hbs, hrest, heq⟩ := Insn.encodeList?_cons_eq_some.mp hhead.code
  cases hrest
  rw [List.append_nil, bytes_eq hhead.inside] at heq
  refine ⟨bs, hbs, fun x hx => ?_⟩
  rw [← heq, List.getElem?_map, List.getElem?_range' (by simpa using hx)]
  simp

/-- Instructions that are alike have the same bytes, but for the distance of a branch to the
outside. -/
theorem Alike.byte_cases (h : Alike s s' outside i i') (hc : c.Holds (s + o) (i :: is))
    (hd : d.Holds (s' + o) (i' :: is')) (hx : x < i.size) :
    c.byte (s + (o + x)) = d.byte (s' + (o + x)) ∨
      i' = i ∧ ∃ t, i.target? = some t ∧ outside t ∧ i.size ≤ x + 4 := by
  obtain ⟨bs, hbs, hbytes⟩ := hc.head_bytes
  obtain ⟨bs', hbs', hbytes'⟩ := hd.head_bytes
  have hsame : bs[x]? = bs'[x]? → c.byte (s + (o + x)) = d.byte (s' + (o + x)) := by
    intro heq
    rw [← Nat.add_assoc, ← Nat.add_assoc]
    rw [hbytes x hx, hbytes' x (h.size_eq ▸ hx)] at heq
    exact Option.some.inj heq
  cases h with
  | plain hi =>
    rw [Insn.encode?, hi] at hbs hbs'
    cases hbs
    cases hbs'
    exact .inl (hsame rfl)
  | @outside t hi ht =>
    by_cases hend : x + 4 < i.size
    · left
      rw [Insn.encode?, hi] at hbs hbs'
      obtain ⟨rel, -, rfl⟩ := Option.map_eq_some_iff.mp hbs
      obtain ⟨rel', -, rfl⟩ := Option.map_eq_some_iff.mp hbs'
      exact hsame (Insn.getElem?_bytes_of_target? hi hend rel rel')
    · -- only the displacement depends on the place, in the last four bytes
      exact .inr ⟨rfl, t, hi, ht, Nat.not_lt.mp hend⟩
  | inside hi =>
    rw [Insn.encode?_moved hi, hbs] at hbs'
    cases hbs'
    exact .inl (hsame rfl)

namespace Parallel

theorem append (h : Parallel s s' outside site o is is')
    (h' : Parallel s s' outside site (o + codeSize is) js js') :
    Parallel s s' outside site o (is ++ js) (is' ++ js') := by
  induction h with
  | nil => exact h'
  | cons hi _ ih =>
    refine .cons hi (ih ?_)
    rwa [Insn.codeSize_cons, ← Nat.add_assoc] at h'
  | site hsite hjs hjs' _ ih =>
    rw [List.append_assoc, List.append_assoc]
    refine .site hsite hjs hjs' (ih ?_)
    rwa [Insn.codeSize_append, hjs, ← Nat.add_assoc] at h'

/-- Bytes of code in two places are the same, outside exit sites and the distances of branches to
the outside. -/
theorem byte_cases (h : Parallel s s' outside site o is is') (hc : c.Holds (s + o) is)
    (hd : d.Holds (s' + o) is') (hx : x < codeSize is) :
    ByteCases c d s s' outside site o is is' x := by
  induction h generalizing x with
  | nil => cases hx
  | @cons o i i' is is' hi h ih =>
    by_cases hfirst : x < i.size
    · rcases hi.byte_cases hc hd hfirst with hsame | ⟨rfl, t, ht, hout, hend⟩
      · exact .inl hsame
      · exact .inr (.inr ⟨[], is, [], is', i', t, rfl, rfl, rfl, ht, hout, by simpa using hend,
          by simpa using hfirst⟩)
    · obtain ⟨y, rfl⟩ := Nat.exists_eq_add_of_le (Nat.not_lt.mp hfirst)
      have hd := hd.tail
      rw [hi.size_eq, Nat.add_assoc] at hd
      have hrest := ih (Nat.add_assoc s o _ ▸ hc.tail) hd (Nat.lt_of_add_lt_add_left hx)
      exact hrest.append (show codeSize [i'] = codeSize [i] from hi.size_eq)
  | @site o js js' is is' hsite hjs hjs' h ih =>
    by_cases hfirst : x < exitSiteLen
    · -- inside a site anything may differ
      exact .inr (.inl ⟨o, hsite, by omega, by omega⟩)
    · obtain ⟨y, rfl⟩ := Nat.exists_eq_add_of_le (Nat.not_lt.mp hfirst)
      have hc := hc.right
      have hd := hd.right
      rw [hjs, Nat.add_assoc] at hc
      rw [hjs', Nat.add_assoc] at hd
      rw [Insn.codeSize_append, hjs] at hx
      have hrest := ih hc hd (Nat.lt_of_add_lt_add_left hx)
      rw [← hjs] at hrest ⊢
      exact hrest.append (hjs'.trans hjs.symm)

end Parallel

end

end Dynarec
