import Dynarec.Proofs.Code.Tables
import Dynarec.Proofs.Jit.Compile
import Dynarec.Proofs.Machine.Routines

/-!
# States in which blocks can be compiled

`Jit.Ready` is what compiling a block rests on: the region is not too large, the fixed routines are
in it, and the cursor is behind them.  It says nothing about which blocks there are or how they are
linked.  A state is ready once it has been set up (`Created.ready`).
-/

namespace Dynarec

open Lower Dynarec.Action CodeCache

variable {σ : Type}

namespace Jit

/-- Blocks can be compiled, whatever the cursor and the tables. -/
structure Ready (j : Jit) : Prop where
  size_le : j.code.size ≤ 2 ^ 31
  installed : j.Installed
  /-- Blocks come behind the fixed routines. -/
  routines : j.routinesLen ≤ j.stubs.blocksStart
  low : j.stubs.blocksStart ≤ j.code.cursor
  high : j.code.cursor ≤ j.code.size
  /-- Blocks are entered in the region. -/
  entries : ∀ num n, j.links.native? num = some n → n.checked ≤ j.code.size
  draft : j.draft = .idle j.config.staticAlloc

/-- Which blocks are registered does not matter to being ready. -/
theorem Ready.setBlocks {j : Jit} (hj : j.Ready) (blocks : Blocks) :
    ({ j with blocks } : Jit).Ready :=
  ⟨hj.size_le, ⟨hj.installed.located, hj.installed.held⟩, hj.routines, hj.low, hj.high, hj.entries,
    hj.draft⟩

/-- States with the same settings and stubs lower code alike, up to links. -/
theorem lowerEnv_eq {j k : Jit} (hconfig : k.config = j.config) (htable : k.table = j.table)
    (hstubs : k.stubs = j.stubs) : k.lowerEnv = { j.lowerEnv with linked := k.linkTarget } := by
  rw [lowerEnv, lowerEnv, hconfig, htable, hstubs]

/-! ## Where the fixed routines are -/

end Jit

/-- Whether an item is an instruction. -/
def Item.isInsn : Item → Bool
  | insn _ => true
  | _ => false

/-- Items with an instruction among them take some bytes. -/
theorem Item.sum_size_pos {items : List Item} (h : items.any isInsn) :
    0 < (items.map size).sum := by
  induction items with
  | nil => cases h
  | cons item items ih =>
    rw [List.map_cons, List.sum_cons]
    cases item with
    | insn i => exact Nat.add_pos_left i.size_pos _
    | padding | mark => exact Nat.add_pos_right _ (ih h)

namespace Jit

namespace Installed

variable {j : Jit}

/-- The fixed routines have the length that their items take. -/
theorem codeSize_fixed (j : Jit) :
    codeSize (j.fixedItems.flatMap (Item.flatten j.place)) = j.routinesLen :=
  Item.codeSize_flatMap_flatten _ _

/-- A fixed routine starts before the end of the fixed routines. -/
theorem exists_place (hi : j.Installed) {l : Label}
    (hl : (Item.after? l j.fixedItems).any (·.any Item.isInsn)) :
    ∃ o < j.routinesLen, j.place l.symbol = addressOf o := by
  obtain ⟨after, hafter, hinsn⟩ := (Option.any_eq_true ..).mp hl
  obtain ⟨before, heq⟩ := Item.eq_of_after? hafter
  have hplaced := hi.placed
  have hpos := Item.sum_size_pos hinsn
  rw [routinesLen, heq]
  rw [heq] at hplaced
  obtain ⟨hplace, -⟩ := (Item.placed_append.mp hplaced).2
  refine ⟨_, ?_, hplace⟩
  rw [List.map_append, List.sum_append, List.map_cons, List.sum_cons]
  omega

/-- The fixed routines that blocks branch to start before the end of the fixed routines. -/
theorem exists_target_lt (hi : j.Installed) :
    ∀ a ∈ j.stubs.targets, ∃ o < j.routinesLen, a = addressOf o := by
  -- every stub that blocks branch to is a label with an instruction behind it
  have hplace : ∀ {l : Label}, (Item.after? l j.fixedItems).any (·.any Item.isInsn) →
      ∃ o < j.routinesLen, addressOf 0 +
        UInt64.ofNat ((Item.offsetOf? (Item.layout 0 j.fixedItems) l.symbol).getD 0) =
          addressOf o := by
    intro l hl
    obtain ⟨after, hafter, -⟩ := (Option.any_eq_true ..).mp hl
    rw [address_eq_place j (Option.isSome_iff_exists.mpr ⟨after, hafter⟩)]
    exact hi.exists_place hl
  have hlocated := hi.located
  generalize j.stubs.blocksStart = blocksStart at hlocated
  intro a ha
  rw [hlocated] at ha
  cases hstatic : j.config.staticAlloc with
  | true =>
    rw [hstatic] at ha
    simp only [Stubs.targets, Stubs.locate, if_true, Option.toList_some, List.cons_append,
      List.nil_append, List.mem_cons, List.not_mem_nil, or_false] at ha
    have hitems : j.fixedItems = Stubs.items true j.table := by rw [fixedItems, hstatic]
    rw [hitems] at hplace
    rcases ha with rfl | rfl | rfl | rfl | rfl | rfl | rfl | rfl <;> exact hplace rfl
  | false =>
    rw [hstatic] at ha
    simp only [Stubs.targets, Stubs.locate, Bool.false_eq_true, if_false, Option.toList_none,
      List.append_nil, List.mem_cons, List.not_mem_nil, or_false] at ha
    have hitems : j.fixedItems = Stubs.items false j.table := by rw [fixedItems, hstatic]
    rw [hitems] at hplace
    rcases ha with rfl | rfl | rfl | rfl | rfl | rfl <;> exact hplace rfl

/-- The fixed routines that blocks branch to are in the region. -/
theorem exists_target (hi : j.Installed) :
    ∀ a ∈ j.stubs.targets, ∃ o ≤ j.code.size, a = addressOf o := by
  intro a ha
  obtain ⟨o, ho, rfl⟩ := hi.exists_target_lt a ha
  have hinside := hi.held.inside
  rw [codeSize_fixed] at hinside
  exact ⟨o, by omega, rfl⟩

end Installed

namespace Ready

variable {j k : Jit}

/-- What blocks may branch to is in the region. -/
theorem reaches (hj : j.Ready) : Reaches j.lowerEnv where
  stubs a ha := by
    obtain ⟨o, ho, rfl⟩ := hj.installed.exists_target a ha
    exact codeBase_le_addressOf (Nat.le_trans ho hj.size_le)
  linked pc a ha := by
    obtain ⟨num, -, hentry⟩ := Option.bind_eq_some_iff.mp ha
    obtain ⟨checked, hchecked, rfl⟩ := Option.map_eq_some_iff.mp hentry
    obtain ⟨n, hnative, rfl⟩ := Option.map_eq_some_iff.mp hchecked
    exact codeBase_le_addressOf
      (Nat.le_trans (hj.entries num n hnative) hj.size_le)

end Ready

/-- The fixed routines stay where they are when their bytes stay. -/
theorem Installed.congr {j k : Jit} (hi : j.Installed) (hconfig : k.config = j.config)
    (htable : k.table = j.table) (hstubs : k.stubs = j.stubs) (hsize : k.code.size = j.code.size)
    (hbyte : ∀ o < j.routinesLen, k.code.byte o = j.code.byte o) : k.Installed := by
  have hitems : k.fixedItems = j.fixedItems := by rw [fixedItems, fixedItems, hconfig, htable]
  have hplace : k.place = j.place := by rw [place, place, hitems]
  refine ⟨by rw [hstubs, hconfig, htable]; exact hi.located, ?_⟩
  rw [hitems, hplace]
  refine hi.held.congr hsize fun o _ ho => hbyte o ?_
  rw [codeSize_fixed] at ho
  omega

/-- Writing behind the cursor keeps the fixed routines. -/
theorem Installed.grows {j k : Jit} (hi : j.Installed) (hle : j.routinesLen ≤ j.code.cursor)
    (hconfig : k.config = j.config) (htable : k.table = j.table) (hstubs : k.stubs = j.stubs)
    (hcode : j.code.Grows k.code) : k.Installed :=
  hi.congr hconfig htable hstubs hcode.size fun o ho => hcode.byte o (by omega)

/-- A state stays ready while the fixed routines stay and blocks come behind them. -/
theorem Ready.congr {j k : Jit} (hj : j.Ready) (hconfig : k.config = j.config)
    (htable : k.table = j.table) (hstubs : k.stubs = j.stubs) (hsize : k.code.size = j.code.size)
    (hbyte : ∀ o < j.routinesLen, k.code.byte o = j.code.byte o)
    (hlow : j.stubs.blocksStart ≤ k.code.cursor) (hhigh : k.code.cursor ≤ j.code.size)
    (hentries : ∀ num n, k.links.native? num = some n → n.checked ≤ j.code.size)
    (hdraft : k.draft = .idle j.config.staticAlloc) : k.Ready where
  size_le := by rw [hsize]; exact hj.size_le
  installed := hj.installed.congr hconfig htable hstubs hsize hbyte
  routines := by
    rw [routinesLen, fixedItems, hconfig, htable, hstubs]
    exact hj.routines
  low := by rw [hstubs]; exact hlow
  high := by rw [hsize]; exact hhigh
  entries := by rw [hsize]; exact hentries
  draft := by rw [hdraft, hconfig]

/-- So it keeps an engine ready. -/
theorem Ready.grows {j k : Jit} (hj : j.Ready) (hgrows : j.Grows k) (hdraft : k.draft = j.draft) :
    k.Ready := by
  have hlow := hj.low
  have hroutines := hj.routines
  have hinside := hgrows.code.inside hj.high
  refine hj.congr hgrows.config hgrows.table hgrows.stubs hgrows.code.size
    (fun o ho => hgrows.code.byte o (by omega)) (Nat.le_trans hj.low hgrows.code.cursor)
    (hgrows.code.size ▸ hinside) ?_ (hdraft.trans hj.draft)
  rw [hgrows.links]
  exact hj.entries

end Jit

/-! ## Setting up -/

/-- What writing the fixed routines into an empty cache leaves. -/
structure Stubs.Generated (config : Config) (table : HandlerTable) (stubs : Stubs)
    (c : CodeCache) : Prop where
  located : stubs = Stubs.locate (addressOf 0) config.staticAlloc table stubs.blocksStart
  held : c.Holds 0 ((Stubs.items config.staticAlloc table).flatMap
    (Item.flatten (Item.resolve (addressOf 0)
      (Item.layout 0 (Stubs.items config.staticAlloc table)))))
  routines : ((Stubs.items config.staticAlloc table).map Item.size).sum ≤ stubs.blocksStart
  aligned : pageSize ∣ stubs.blocksStart
  cursor : c.cursor = stubs.blocksStart
  inside : c.cursor ≤ c.size

/-- Writing the fixed routines leaves them at the start of the region. -/
theorem Stubs.write_spec {config : Config} {table : HandlerTable} {c d : CodeCache} {stubs : Stubs}
    (hcursor : c.cursor = 0) (hsize : c.size ≤ 2 ^ 31)
    (h : Stubs.write config table c = .ok stubs d) :
    Stubs.Generated config table stubs d ∧ d.size = c.size := by
  rw [Stubs.write, bind_of_ok (get_apply c)] at h
  obtain ⟨code, c₁, hassemble, h₁⟩ := bind_eq_ok.mp h
  obtain ⟨hcode, rfl⟩ := ofExcept_eq_ok.mp hassemble
  obtain ⟨_, c₂, happend, h₂⟩ := bind_eq_ok.mp h₁
  obtain ⟨rfl, hfits, rfl⟩ := CodeCache.append_eq_ok.mp happend
  obtain ⟨_, c₃, halign, h₃⟩ := bind_eq_ok.mp h₂
  rw [alignToPage, bind_of_ok (get_apply _)] at halign
  obtain ⟨hroom, hc₃⟩ := CodeCache.reserve_eq_ok.mp halign
  -- the cursor is moved up to the next page, so that blocks have pages of their own
  have hroom' : roundUpToPage (c.cursor + code.bytes.length) - (c.cursor + code.bytes.length) ≤
      c.size - (c.cursor + code.bytes.length) := hroom
  have hstop : c₃.position.toNat = c₃.cursor := by
    rw [hc₃]
    refine toNat_position ?_
    show c.cursor + code.bytes.length +
      (roundUpToPage (c.cursor + code.bytes.length) - (c.cursor + code.bytes.length)) ≤ 2 ^ 31
    omega
  rw [bind_of_ok (get_apply c₃), hstop] at h₃
  subst hc₃
  cases h₃
  -- what was written at the start of the region is the code of all items there
  obtain ⟨hbytes, -⟩ := Assembler.assembleItems_eq_ok.mp (mapError_except_eq_ok.mp hcode)
  have hlen := Insn.length_of_encodeList? hbytes
  rw [Item.codeSize_flatMap_flatten] at hlen
  have haddress : c.cursorAddress = addressOf 0 := by
    rw [cursorAddress_eq (by omega), hcursor]
  rw [haddress] at hbytes
  have hround := le_roundUpToPage (c.cursor + code.bytes.length)
  have hinside : c.cursor + code.bytes.length ≤ c.size := by omega
  have hcells : (c.write 0 code.bytes).Holds 0 _ := holds_write hbytes (by omega)
  refine ⟨⟨?_, hcells.congr rfl fun _ _ _ => ?_, ?_, ?_, rfl, ?_⟩, rfl⟩
  · rw [haddress]
    rfl
  · rw [hcursor]
    rfl
  · show _ ≤ c.cursor + code.bytes.length +
      (roundUpToPage (c.cursor + code.bytes.length) - (c.cursor + code.bytes.length))
    omega
  · show pageSize ∣ c.cursor + code.bytes.length +
      (roundUpToPage (c.cursor + code.bytes.length) - (c.cursor + code.bytes.length))
    rw [Nat.add_sub_cancel' hround]
    exact Nat.dvd_mul_left _ _
  · show c.cursor + code.bytes.length +
      (roundUpToPage (c.cursor + code.bytes.length) - (c.cursor + code.bytes.length)) ≤ c.size
    omega

/-- So does generating them, inside a window. -/
theorem Stubs.generate_spec {config : Config} {table : HandlerTable} {c d : CodeCache}
    {stubs : Stubs} (hcursor : c.cursor = 0) (hsize : c.size ≤ 2 ^ 31)
    (h : Stubs.generate config table c = .ok stubs d) :
    Stubs.Generated config table stubs d ∧ d.size = c.size := by
  obtain ⟨w, c₁, hopen, hrest⟩ := bind_eq_ok.mp h
  obtain ⟨d₁, hwrite, rfl⟩ := andFinally_eq_ok.mp hrest
  rw [openAppend, bind_of_ok (get_apply c)] at hopen
  obtain ⟨host, rfl⟩ := Keeps.of_ok (keeps_same_openWindow _ _) hopen
  obtain ⟨host', hclosed⟩ := same_closeWindow w d₁
  obtain ⟨hgenerated, hsame⟩ := Stubs.write_spec (c := { c with host }) hcursor hsize hwrite
  rw [hclosed]
  exact ⟨⟨hgenerated.located, hgenerated.held.congr rfl fun _ _ _ => rfl, hgenerated.routines,
    hgenerated.aligned, hgenerated.cursor, hgenerated.inside⟩, hsame⟩

/-- A validated region is not larger than a branch can reach. -/
theorem roundUpToPage_le {n : Nat} (h : n ≤ Config.maxCodeSpace) : roundUpToPage n ≤ 2 ^ 31 := by
  simp only [Config.maxCodeSpace] at h
  simp only [roundUpToPage, pageSize]
  omega

/-- The handlers in use when none are given are apart from any code region. -/
theorem HandlerTable.separate_default {size : Nat} (h : size ≤ 2 ^ 31) :
    HandlerTable.default.Separate size := by
  have hfree : ∀ a ∈ default.fixed ++ [slot 9], a ≠ returnAddress ∧
      codeBase.toNat + 2 ^ 31 ≤ a.toNat := List.all_iff_forall_prop.mp (by decide)
  have hinterpreter : slot 9 ∉ default.fixed := by decide
  refine ⟨by decide, fun _ => hinterpreter, fun a ha => ?_, fun _ => ?_⟩
  · obtain ⟨hne, hhigh⟩ := hfree a (List.mem_append_left _ ha)
    exact ⟨hne, .inr (by omega)⟩
  · obtain ⟨hne, hhigh⟩ := hfree (slot 9) (by decide)
    exact ⟨hne, .inr (by simp only [default]; omega)⟩

namespace Jit

/-- What setting up leaves. -/
structure Created (config : Config) (table : HandlerTable) (j : Jit) : Prop where
  sameConfig : j.config = config
  sameTable : j.table = table
  stubs : Stubs.Generated config table j.stubs j.code
  size_le : j.code.size ≤ 2 ^ 31
  whole : pageSize ∣ j.code.size
  blocks : j.blocks = .empty
  links : j.links = .empty
  draft : j.draft = .idle config.staticAlloc

/-- Setting up fails before anything is mapped, or writes the fixed routines into an empty
region. -/
theorem create_cases (config : Config) (table : HandlerTable) (host : Host) :
    (∃ e, create config table host = .error e (host.note (.creating config))) ∨
      ∃ c : CodeCache, config.codeSpace ≤ Config.maxCodeSpace ∧ c.cursor = 0 ∧
        c.size = roundUpToPage config.codeSpace ∧ 0 < c.size ∧ c.exclusive = config.wxExclusive ∧
        c.host.events = host.events ∧
        create config table host =
          match Stubs.generate config table c with
          | .error e d => .error e d.host
          | .ok stubs d =>
            .ok { config, table, code := d, stubs, draft := .idle config.staticAlloc,
                  logBlocks := config.logBlocks } d.host := by
  rw [create, bind_of_ok (modify_apply _ _), build]
  cases hvalid : config.validate with
  | error e => exact .inl ⟨e, rfl⟩
  | ok _ =>
    rw [bind_of_ok (ofExcept_eq_ok.mpr ⟨rfl, rfl⟩)]
    have hspace : config.codeSpace ≤ Config.maxCodeSpace := by
      rw [Config.validate] at hvalid
      split at hvalid
      · rename_i hspace
        simp only [Config.isCodeSpace, Bool.and_eq_true, decide_eq_true_eq] at hspace
        exact hspace.2
      · cases hvalid
    cases hfault : mappingFault? (host.note (.creating config)) (roundUpToPage config.codeSpace) with
    | some fault =>
      left
      refine ⟨.codeAllocation (roundUpToPage config.codeSpace) fault, bind_of_error ?_⟩
      rw [CodeCache.create, bind_of_ok (get_apply _)]
      simp only [hfault]
      rfl
    | none =>
      right
      -- a region without pages would have been refused
      have hpos : 0 < roundUpToPage config.codeSpace := by
        rw [mappingFault?] at hfault
        split at hfault
        · cases hfault
        · split at hfault
          · cases hfault
          · omega
      obtain ⟨c, mapped, hmaps, hcursor, hsize, hexclusive, hevents⟩ :
          ∃ (c : CodeCache) (mapped : Host),
          CodeCache.create config.codeSpace config.wxExclusive (host.note (.creating config)) =
            .ok c mapped ∧ c.cursor = 0 ∧ c.size = roundUpToPage config.codeSpace ∧
          c.exclusive = config.wxExclusive ∧ c.host.events = host.events := by
        rw [CodeCache.create, bind_of_ok (get_apply _)]
        simp only [hfault]
        exact ⟨_, _, rfl, rfl, rfl, rfl, rfl⟩
      refine ⟨c, hspace, hcursor, hsize, hsize ▸ hpos, hexclusive, hevents, ?_⟩
      rw [bind_of_ok hmaps]
      cases Stubs.generate config table c <;> rfl

/-- A new engine is ready and has its fixed routines and nothing else. -/
theorem create_spec {config : Config} {table : HandlerTable} {host host' : Host} {j : Jit}
    (h : create config table host = .ok j host') : Created config table j := by
  rcases create_cases config table host with
    ⟨e, hfails⟩ | ⟨c, hspace, hcursor, hsize, -, -, -, hcreate⟩
  · cases h.symm.trans hfails
  · rw [h] at hcreate
    cases hgenerate : Stubs.generate config table c with
    | error e d =>
      rw [hgenerate] at hcreate
      cases hcreate
    | ok stubs d =>
      rw [hgenerate] at hcreate
      cases hcreate
      have hle : c.size ≤ 2 ^ 31 := hsize ▸ roundUpToPage_le hspace
      obtain ⟨hgenerated, hsame⟩ := Stubs.generate_spec hcursor hle hgenerate
      have hwhole : d.size = roundUpToPage config.codeSpace := hsame.trans hsize
      exact ⟨rfl, rfl, hgenerated, by rw [hsame]; exact hle,
        by rw [hwhole]; exact Nat.dvd_mul_left _ _, rfl, rfl, rfl⟩

/-- A state that has been set up is ready. -/
theorem Created.ready {config : Config} {table : HandlerTable} {j : Jit}
    (hj : Created config table j) : j.Ready where
  size_le := hj.size_le
  installed := by
    refine ⟨?_, ?_⟩
    · rw [hj.sameConfig, hj.sameTable]
      exact hj.stubs.located
    · rw [place, fixedItems, hj.sameConfig, hj.sameTable]
      exact hj.stubs.held
  routines := by
    rw [routinesLen, fixedItems, hj.sameConfig, hj.sameTable]
    exact hj.stubs.routines
  low := Nat.le_of_eq hj.stubs.cursor.symm
  high := hj.stubs.inside
  entries num n hn := by
    rw [hj.links, Links.native?_empty] at hn
    cases hn
  draft := by rw [hj.draft, hj.sameConfig]

end Jit

end Dynarec
