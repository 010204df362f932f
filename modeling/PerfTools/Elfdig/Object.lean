import PerfTools.Elfdig.Listing

/-!
# The object that elf_init returns

Each of the three loaders returns early where a section is missing or cannot be read, and elf_init
looks at none of their results: what they have not assigned stays as malloc has left it. The pairs
of an array and a count are sound when every one of the loaders gets to its end, or to the one
return before it that assigns both.
-/

namespace PerfTools.Elfdig

open Elf Memory Printf Exec

/-! ## Sound objects -/

/-- The pair has been assigned, and the array holds as many entries as the count says. -/
def Pair (array : Option (Option Ptr)) (num : Option Int) (size : Nat) : Prop :=
  ∃ p n, array = some p ∧ num = some n ∧ (n = 0 ∨ ∃ q, p = some q ∧ n * size ≤ q.tail.length)

/-- The traversal does not fail, and it calls back on entries that exist, only. -/
def Traversed (traverse : (Ptr → DigRun Unit) → DigRun Unit) (size : Nat) (obj : ElfObj) : Prop :=
  ∀ callback, (∀ p s, size ≤ p.tail.length → s.vars = obj →
    wp (callback p) (fun _ s => s.vars = obj) (fun _ _ => False) s) →
    ∀ s, s.vars = obj → wp (traverse callback) (fun _ s => s.vars = obj) (fun _ _ => False) s

structure Sound (obj : ElfObj) : Prop where
  sym : Pair obj.sym obj.symNum Sym.size
  dynsym : Pair obj.dynsym obj.dynsymNum Sym.size
  dyn : Pair obj.dyn obj.dynNum Dyn.size
  symbols : Traversed elfForEachSym Sym.size obj
  dynamicSymbols : Traversed elfForEachDynsym Sym.size obj
  dynamics : Traversed elfForEachDyn Dyn.size obj
  fini : ∀ s, s.vars = obj → wp elfFini (fun _ _ => True) (fun _ _ => False) s

/-- elf_init does not fail, and an object that it returns is sound. -/
@[irreducible] def InitLaw (host : Host) : Prop :=
  wp (elfInit host) (fun found s => found = true → Sound s.vars) (fun _ _ => False) ElfObj.start

/-! ## Files -/

/-- The sections that the loaders ask for. -/
def loadedNames : List String := [".strtab", ".symtab", ".dynstr", ".dynsym", ".dynamic"]

/-- The section is empty, or its contents are behind the file header and end at a 32-bit offset. -/
def Placed (src : List UInt8) (i : Nat) : Prop :=
  shdr src i Shdr.shSize = 0 ∨
    Ehdr.size ≤ shdr src i Shdr.shOffset ∧ shdr src i Shdr.shOffset + shdr src i Shdr.shSize < 2 ^ 32

instance (src : List UInt8) (i : Nat) : Decidable (Placed src i) := instDecidableOr

/-- The section has one of those names, or it holds the section names. -/
def Loaded (src : List UInt8) (i : Nat) : Prop :=
  i = ehdr src Ehdr.eShstrndx ∨ ∃ name ∈ loadedNames, (sectionName src i).chars = ascii name

instance (src : List UInt8) (i : Nat) : Decidable (Loaded src i) := instDecidableOr

/-- A 32-bit ELF file with its section headers and these sections at 32-bit offsets. -/
@[mk_iff]
structure PlacedFile (src : List UInt8) : Prop where
  headed : HeadedFile src
  table : ehdr src Ehdr.eShoff + ehdr src Ehdr.eShnum * ehdr src Ehdr.eShentsize < 2 ^ 32
  sections : ∀ i < ehdr src Ehdr.eShnum, Loaded src i → Placed src i

instance (src : List UInt8) : Decidable (PlacedFile src) :=
  decidable_of_iff _ (placedFile_iff src).symm

/-! ## What must be there -/

/-- elf_file_read gets what the header of section i describes. -/
def Obtained (host : Host) (target : Ptr → Target) (i : Nat) : Prop :=
  host.malloc (target (sectionEntry host.file i)) (shdr host.file i Shdr.shSize) = true ∧
    shdr host.file i Shdr.shSize < 2 ^ 31 ∧ -1 ≤ toInt (shdr host.file i Shdr.shOffset) ∧
    (shdr host.file i Shdr.shSize = 0 ∨
      shdr host.file i Shdr.shOffset + shdr host.file i Shdr.shSize ≤ host.file.length)

/-- The section headers and their names can be read. -/
structure NamesObtained (host : Host) : Prop where
  header : host.malloc .header Ehdr.size = true
  table : host.malloc .sectionTable
    (ehdr host.file Ehdr.eShentsize * ehdr host.file Ehdr.eShnum) = true
  offset : ehdr host.file Ehdr.eShoff < 2 ^ 31
  names : Obtained host .nameTable (ehdr host.file Ehdr.eShstrndx)

/-- There is a section of the name and its contents can be read. -/
def SectionObtained (host : Host) (name : String) : Prop :=
  ∃ i, firstNamed host.file name = some i ∧ Obtained host .contents i

/-- The section of the name has no whole entry, or it can be read. -/
def EntriesObtained (host : Host) (i size : Nat) : Prop :=
  shdr host.file i Shdr.shSize < size ∨ Obtained host .contents i

/-- What the three pairs need. -/
structure Complete (host : Host) : Prop where
  names : NamesObtained host
  strtab : SectionObtained host ".strtab"
  symtab : ∃ i, firstNamed host.file ".symtab" = some i ∧ EntriesObtained host i Sym.size
  dynstr : SectionObtained host ".dynstr"
  dynsym : ∀ i, firstNamed host.file ".dynsym" = some i → EntriesObtained host i Sym.size
  dynamic : ∃ i, firstNamed host.file ".dynamic" = some i ∧
    shdr host.file i Shdr.shEntsize = Dyn.size ∧
    ((toInt (shdr host.file i Shdr.shSize)).natAbs < Dyn.size ∨ Obtained host .contents i)

/-! ## Traversals -/

section

variable {obj : ElfObj}

private theorem Pair.entry {array : Option (Option Ptr)} {num : Option Int} {size : Nat}
    (h : Pair array num size) {p : Option Ptr} {n : Int} (hp : array = some p) (hn : num = some n)
    {i : Nat} (hi : i < n.toNat) :
    ∃ q, p = some q ∧ size ≤ (q.add (i * size)).tail.length := by
  obtain ⟨p', n', hp', hn', hpair⟩ := h
  rw [hp'] at hp
  rw [hn'] at hn
  obtain rfl := Option.some.inj hp
  obtain rfl := Option.some.inj hn
  rcases hpair with rfl | ⟨q, rfl, hlen⟩
  · exact absurd hi (Nat.not_lt_zero i)
  · have hle : (i + 1) * size ≤ n'.toNat * size := Nat.mul_le_mul_right _ hi
    have hcast : ((n'.toNat * size : Nat) : Int) = n' * size := by
      rw [Nat.cast_mul, Int.toNat_of_nonneg (by omega)]
    rw [Nat.succ_mul] at hle
    exact ⟨q, rfl, by rw [Ptr.add_tail, List.length_drop]; omega⟩

/-- The loop that elf_for_each_sym and elf_for_each_dynsym share. -/
private theorem traversed_entries (array : ElfObj → Option (Option Ptr))
    (num : ElfObj → Option Int) (h : Pair (array obj) (num obj) Sym.size) :
    Traversed (fun callback => do
      let n ← field num
      let p ← field array
      forEachEntry p n callback) Sym.size obj := by
  intro callback hcallback s hs
  have hpair := h
  obtain ⟨p, n, hp, hn, -⟩ := hpair
  rw [wp_bind, wp_field (by rw [hs]; exact hn), wp_bind, wp_field (by rw [hs]; exact hp),
    forEachEntry]
  apply wp_loop _ (fun _ (s : Proc ElfObj) => s.vars = obj) _ hs
  intro i t _ hi ht
  obtain ⟨q, hq, hlen⟩ := h.entry hp hn (by rwa [Nat.zero_add] at hi)
  rw [wp_bind, hq, deref_some, wp_lift_ok]
  exact hcallback _ t hlen ht

private theorem wp_forEachDyn {callback : Ptr → DigRun Unit} {p : Option Ptr} {n i : Nat}
    (hentry : ∀ k, i ≤ k → k < i + n →
      ∃ q, p = some q ∧ Dyn.size ≤ (q.add (k * Dyn.size)).tail.length)
    (hcallback : ∀ p s, Dyn.size ≤ p.tail.length → s.vars = obj →
      wp (callback p) (fun _ s => s.vars = obj) (fun _ _ => False) s)
    {s : Proc ElfObj} (hs : s.vars = obj) :
    wp (forEachDyn p callback n i) (fun _ s => s.vars = obj) (fun _ _ => False) s := by
  induction n generalizing i s with
  | zero => exact hs
  | succ n ih =>
    obtain ⟨q, hq, hlen⟩ := hentry i le_rfl (by omega)
    have htag : (q.add (i * Dyn.size)).get Dyn.dTag =
        .ok (fieldAt (q.add (i * Dyn.size)).tail 0 Dyn.dTag) := if_pos (le_trans (by decide) hlen)
    rw [forEachDyn, wp_bind, hq, deref_some, wp_lift_ok, wp_bind, htag, wp_lift_ok, wp_ite]
    refine ⟨fun _ => hs, fun _ => ?_⟩
    rw [wp_bind]
    apply wp_mono (hcallback _ s hlen hs) _ fun _ _ hfalse => hfalse
    intro _ t ht
    rw [← hq]
    exact ih (fun k hk hlt => hentry k (by omega) (by omega)) ht

private theorem traversed_dynamics (h : Pair obj.dyn obj.dynNum Dyn.size) :
    Traversed elfForEachDyn Dyn.size obj := by
  intro callback hcallback s hs
  have hpair := h
  obtain ⟨p, n, hp, hn, -⟩ := hpair
  rw [elfForEachDyn, wp_bind, wp_field (by rw [hs]; exact hp), wp_bind,
    wp_field (by rw [hs]; exact hn)]
  apply wp_forEachDyn _ hcallback hs
  intro k _ hk
  exact h.entry hp hn (by rwa [Nat.zero_add] at hk)

/-- The members that elf_fini looks at besides the arrays. -/
structure Assigned (obj : ElfObj) : Prop where
  head : obj.head.isSome
  sections : obj.sections.isSome
  shstrtab : obj.shstrtab.isSome
  strtab : obj.strtab.isSome

theorem sound_of_pairs (hset : Assigned obj) (hsym : Pair obj.sym obj.symNum Sym.size)
    (hdynsym : Pair obj.dynsym obj.dynsymNum Sym.size)
    (hdyn : Pair obj.dyn obj.dynNum Dyn.size) : Sound obj where
  sym := hsym
  dynsym := hdynsym
  dyn := hdyn
  symbols := traversed_entries ElfObj.sym ElfObj.symNum hsym
  dynamicSymbols := traversed_entries ElfObj.dynsym ElfObj.dynsymNum hdynsym
  dynamics := traversed_dynamics hdyn
  fini s hs := by
    obtain ⟨_, hhead⟩ := Option.isSome_iff_exists.mp hset.head
    obtain ⟨_, hsections⟩ := Option.isSome_iff_exists.mp hset.sections
    obtain ⟨_, hshstrtab⟩ := Option.isSome_iff_exists.mp hset.shstrtab
    obtain ⟨_, hstrtab⟩ := Option.isSome_iff_exists.mp hset.strtab
    obtain ⟨_, _, hp, -⟩ := hsym
    obtain ⟨_, _, hp', -⟩ := hdyn
    rw [← hs] at hhead hsections hshstrtab hstrtab hp hp'
    rw [elfFini, wp_bind, wp_field hhead, wp_bind, wp_field hsections, wp_bind, wp_field hp, wp_bind,
      wp_field hshstrtab, wp_bind, wp_field hstrtab, wp_bind, wp_field hp', wp_pure]
    trivial

end

/-! ## Reading -/

section

variable {host : Host} {s : Proc ElfObj} {E : Stop → Proc ElfObj → Prop}

/-- What a read of section i gives: its contents, or nothing. -/
private def Gives (host : Host) (target : Ptr → Target) (i : Nat) (p : Option Ptr) : Prop :=
  (p.isSome ↔ Obtained host target i) ∧
    ∀ q, p = some q → shdr host.file i Shdr.shSize ≤ q.tail.length

private theorem transfer_gives (target : Ptr → Target) {i : Nat} (hplaced : Placed host.file i)
    (pos : Nat) : Gives host target i (host.transfer (target (sectionEntry host.file i))
      (toInt (shdr host.file i Shdr.shSize) % 2 ^ 64).toNat pos
      (toInt (shdr host.file i Shdr.shOffset)) (toInt (shdr host.file i Shdr.shSize))).1 := by
  have hoffset := toInt_cases (shdr_lt host.file i (f := Shdr.shOffset) rfl)
  have hsize := toInt_cases (shdr_lt host.file i (f := Shdr.shSize) rfl)
  unfold Placed at hplaced
  constructor
  · rw [transfer_isSome, served_iff, Obtained]
    rcases Nat.eq_zero_or_pos (shdr host.file i Shdr.shSize) with hzero | hpos
    · rw [hzero]
      exact and_congr_right fun _ => by simp [toInt]
    · have hbehind := hplaced.resolve_left hpos.ne'
      rw [Ehdr.size] at hbehind
      rcases hsize with ⟨hsmall, hcast⟩ | ⟨hlarge, hcast⟩
      · have hrequest : ((shdr host.file i Shdr.shSize : Int) % 2 ^ 64).toNat =
          shdr host.file i Shdr.shSize := by omega
        rw [hcast, hrequest, Int.toNat_natCast]
        apply and_congr_right
        intro _
        rcases hoffset with ⟨hlow, hcast'⟩ | ⟨hhigh, hcast'⟩
        · rw [hcast', seekTo_natCast]
          omega
        · omega
      · omega
  · intro q hq
    have hcount := (transfer_isSome.mp (Option.isSome_of_eq_some hq)).count
    have hfetched := Host.transfer_fetched (fun hnonneg => by omega) hq
    rcases hsize with ⟨_, hcast⟩ | ⟨hlarge, hcast⟩
    · rw [hfetched.length (by omega), hcast, Int.toNat_natCast]
    · rcases hplaced with hzero | ⟨hbehind, hend⟩
      · omega
      · rw [Ehdr.size] at hbehind
        omega

private theorem wp_contents {Q : Option Ptr → Proc ElfObj → Prop} (h : PlacedFile host.file)
    (hoffset : ehdr host.file Ehdr.eShoff < 2 ^ 31) {name : String} (hname : name ∈ loadedNames)
    {i : Nat} (hi : firstNamed host.file name = some i)
    (hQ : ∀ p s', s'.vars = s.vars → Gives host .contents i p → Q p s') :
    wp (elfSectionOf host (some (sectionEntry host.file i))) Q E s := by
  obtain ⟨hlt, hnamed⟩ := firstNamed_some hi
  rw [wp_elfSectionOf h.headed hoffset hlt, wp_elfFileRead]
  apply hQ
  · rfl
  · exact transfer_gives .contents (h.sections i hlt (Or.inr ⟨name, hname, hnamed⟩)) s.pos

/-- The members after elf_section_head_read: the names are there, or the pointer to them is null. -/
private structure HeadersRead (host : Host) (obj : ElfObj) : Prop where
  offset : ehdr host.file Ehdr.eShoff < 2 ^ 31
  head : obj.head.isSome
  sections : obj.sections = some (some (sectionArray host.file))
  sectionNum : obj.sectionNum = some (ehdr host.file Ehdr.eShnum)
  shstrtab : NamesObtained host ∧
      obj.shstrtab = some (contentsOf host.file (ehdr host.file Ehdr.eShstrndx)) ∨
    ¬ NamesObtained host ∧ obj.shstrtab = some none
  shstrtabLen : obj.shstrtabLen =
    some (toInt (shdr host.file (ehdr host.file Ehdr.eShstrndx) Shdr.shSize))
  symNum : obj.symNum = none
  dynsymNum : obj.dynsymNum = none
  dynNum : obj.dynNum = none

private theorem names_nonempty (h : HeadedFile host.file) :
    0 < shdr host.file (ehdr host.file Ehdr.eShstrndx) Shdr.shSize := by
  have hname := h.held _ h.names
  have hlen : (nameTable host.file).length ≤
      shdr host.file (ehdr host.file Ehdr.eShstrndx) Shdr.shSize := by simp [nameTable]
  unfold readString at hname
  split_ifs at hname with hlt
  omega

private theorem names_readable (h : PlacedFile host.file)
    (hnames : Obtained host .nameTable (ehdr host.file Ehdr.eShstrndx)) :
    Readable host.file (ehdr host.file Ehdr.eShstrndx) := by
  obtain ⟨-, hsize, hoffset, hinside⟩ := hnames
  have hpos := names_nonempty h.headed
  have hplaced := h.sections _ h.headed.names (Or.inl rfl)
  have hcases := toInt_cases (shdr_lt host.file (ehdr host.file Ehdr.eShstrndx)
    (f := Shdr.shOffset) rfl)
  unfold Placed at hplaced
  refine ⟨by omega, hsize, ?_⟩
  unfold Described
  omega

private theorem transfer_names (h : PlacedFile host.file)
    (hnames : Obtained host .nameTable (ehdr host.file Ehdr.eShstrndx)) (pos : Nat) :
    (host.transfer (.nameTable (sectionEntry host.file (ehdr host.file Ehdr.eShstrndx)))
      (toInt (shdr host.file (ehdr host.file Ehdr.eShstrndx) Shdr.shSize) % 2 ^ 64).toNat pos
      (toInt (shdr host.file (ehdr host.file Ehdr.eShstrndx) Shdr.shOffset))
      (toInt (shdr host.file (ehdr host.file Ehdr.eShstrndx) Shdr.shSize))).1 =
      contentsOf host.file (ehdr host.file Ehdr.eShstrndx) := by
  have hread := names_readable h hnames
  have hsize := hread.2.1
  have hrequest :
      ((shdr host.file (ehdr host.file Ehdr.eShstrndx) Shdr.shSize : Int) % 2 ^ 64).toNat =
      shdr host.file (ehdr host.file Ehdr.eShstrndx) Shdr.shSize := by omega
  rw [toInt_of_lt hread.1, toInt_of_lt hsize, hrequest,
    Host.transfer_inside hnames.1 rfl (Or.inr hread.2.2), contentsOf, if_pos hread]

private theorem wp_read_none {Q : Option Ptr → Proc ElfObj → Prop} {target : Target}
    {offset size : Int}
    (h : ¬ (host.transfer target (size % 2 ^ 64).toNat s.pos offset size).1.isSome)
    (hQ : ∀ s', Q none s') : wp (elfFileRead host target offset size) Q E s := by
  rw [wp_elfFileRead, Option.not_isSome_iff_eq_none.mp h]
  exact hQ _

private theorem wp_headersRead {Q : Unit → Proc ElfObj → Prop} (h : PlacedFile host.file)
    (hE : ¬ NamesObtained host → ∀ e s, E e s) (hQ : ∀ s, HeadersRead host s.vars → Q () s) :
    wp (elfSectionHeadRead host) Q E ElfObj.start := by
  have hm : ∀ {f : Field}, f.off + f.width ≤ Ehdr.size →
      member (some (chunk host.file 0 Ehdr.size)) f = .ok (ehdr host.file f) := fun hf =>
    member_header h.headed.header hf
  have hsize : ehdr host.file Ehdr.eShentsize * ehdr host.file Ehdr.eShnum < 2 ^ 31 := by
    have hnum := ehdr_lt host.file (f := Ehdr.eShnum) rfl
    rw [h.headed.entsize, Shdr.size]
    omega
  rw [elfSectionHeadRead, wp_bind]
  by_cases hheader : host.malloc .header Ehdr.size = true
  · refine (wp_elfFileRead_inside hheader (by decide)
      (Or.inr (by simpa using h.headed.header))).mpr ?_
    rw [wp_bind, hm (by decide), wp_lift_ok, wp_bind, hm (by decide), wp_lift_ok, wp_bind,
      hm (by decide), wp_lift_ok, wp_bind, ← Nat.cast_mul, checked_natCast hsize, wp_lift_ok, wp_bind]
    by_cases htable : host.malloc .sectionTable
        (ehdr host.file Ehdr.eShentsize * ehdr host.file Ehdr.eShnum) = true ∧
      ehdr host.file Ehdr.eShoff < 2 ^ 31
    · obtain ⟨htable, hoffset⟩ := htable
      have harray := h.headed.array hoffset
      rw [toInt_of_lt hoffset]
      refine (wp_elfFileRead_inside htable hsize (Or.inr harray.inside)).mpr ?_
      rw [wp_bind, wp_setVars, wp_bind, hm (by decide), wp_lift_ok, wp_bind, deref_some, wp_lift_ok]
      dsimp only
      rw [← sectionArray, ← sectionEntry, wp_bind,
        h.headed.entry_get hoffset h.headed.names (by decide),
        wp_lift_ok, wp_bind, h.headed.entry_get hoffset h.headed.names (by decide), wp_lift_ok,
        wp_bind, wp_elfFileRead, wp_setVars]
      apply hQ
      have hplaced := h.sections _ h.headed.names (Or.inl rfl)
      refine ⟨hoffset, rfl, rfl, rfl, ?_, rfl, rfl, rfl, rfl⟩
      by_cases hnames : Obtained host .nameTable (ehdr host.file Ehdr.eShstrndx)
      · exact Or.inl ⟨⟨hheader, htable, hoffset, hnames⟩,
          congrArg some (transfer_names h hnames _)⟩
      · refine Or.inr ⟨fun hall => hnames hall.names, congrArg some ?_⟩
        apply Option.not_isSome_iff_eq_none.mp
        rwa [(transfer_gives .nameTable hplaced _).1]
    · have hnone : ¬ NamesObtained host := fun hnames => htable ⟨hnames.table, hnames.offset⟩
      apply wp_read_none
      · rw [transfer_isSome, served_iff]
        intro hread
        have hrequest : ((ehdr host.file Ehdr.eShentsize * ehdr host.file Ehdr.eShnum : Nat) : Int) %
            2 ^ 64 = (ehdr host.file Ehdr.eShentsize * ehdr host.file Ehdr.eShnum : Nat) := by omega
        rw [hrequest, Int.toNat_natCast] at hread
        have hshoff : ehdr host.file Ehdr.eShoff < 2 ^ 32 := fieldAt_lt _ _ Ehdr.eShoff
        have hcases := toInt_cases hshoff
        have hend := h.table
        have hnames := h.headed.names
        rw [h.headed.entsize, Shdr.size] at hend
        exact htable ⟨hread.1, by omega⟩
      · intro s'
        rw [wp_bind, wp_setVars, wp_bind, hm (by decide), wp_lift_ok, wp_bind]
        exact hE hnone _ _
  · apply wp_read_none
    · rw [transfer_isSome]
      exact fun hread => hheader hread.memory
    · intro s'
      exact hE (fun hnames => hheader hnames.header) _ _

/-! ## Loading -/

private theorem wp_search_unnamed {Q : Option Ptr → Proc ElfObj → Prop} (h : PlacedFile host.file)
    (hnames : ¬ NamesObtained host) (hs : HeadersRead host s.vars) {name : String}
    (hE : ∀ e s, E e s) : wp (elfSectionHead name) Q E s := by
  have hshstrtab := (hs.shstrtab.resolve_left fun hall => hnames hall.1).2
  obtain ⟨n, hn⟩ : ∃ n, ehdr host.file Ehdr.eShnum = n + 1 :=
    Nat.exists_eq_add_one.mpr ((Nat.zero_le _).trans_lt h.headed.names)
  have hname : ((sectionArray host.file).add (0 * Shdr.size)).get Shdr.shName =
      .ok (shdr host.file 0 Shdr.shName) :=
    h.headed.entry_get hs.offset (by omega) (by decide)
  have hfind : findSection (some (sectionArray host.file)) none (ascii name) (n + 1) 0 =
      .error .nullDeref := by
    rw [findSection, deref_some, ok_bind, hname]
    rfl
  rw [elfSectionHead, wp_bind, wp_field hs.sectionNum, wp_bind, wp_field hs.sections, wp_bind,
    wp_field hshstrtab, hn, hfind, wp_lift_error]
  exact hE _ _

private theorem not_pair_unset {array : Option (Option Ptr)} {size : Nat} :
    ¬ Pair array none size := by
  intro h
  obtain ⟨_, _, _, hn, _⟩ := h
  cases hn

private theorem pair_iff {i size : Nat} {p : Option Ptr} (hp : Gives host .contents i p)
    (hsize : 0 < size) : Pair (some p) (some (shdr host.file i Shdr.shSize / size : Nat)) size ↔
      EntriesObtained host i size := by
  unfold EntriesObtained
  rw [← hp.1, Option.isSome_iff_exists]
  constructor
  · intro h
    obtain ⟨_, _, hp', hn, hcount⟩ := h
    obtain rfl := Option.some.inj hp'
    obtain rfl := Option.some.inj hn
    rcases hcount with hzero | ⟨q, hq, -⟩
    · rw [Nat.cast_eq_zero, Nat.div_eq_zero_iff] at hzero
      exact Or.inl (by omega)
    · exact Or.inr ⟨q, hq⟩
  · intro h
    refine ⟨p, _, rfl, rfl, ?_⟩
    rcases h with hsmall | ⟨q, hq⟩
    · exact Or.inl (by rw [Nat.div_eq_of_lt hsmall]; rfl)
    · have hle := Nat.div_mul_le_self (shdr host.file i Shdr.shSize) size
      have hlen := hp.2 q hq
      exact Or.inr ⟨q, hq, by exact_mod_cast hle.trans hlen⟩

private theorem pair_dyn_iff {i : Nat} {p : Option Ptr} (hp : Gives host .contents i p) :
    Pair (some p) (some ((toInt (shdr host.file i Shdr.shSize)).tdiv Dyn.size)) Dyn.size ↔
      (toInt (shdr host.file i Shdr.shSize)).natAbs < Dyn.size ∨ Obtained host .contents i := by
  have hzero : (toInt (shdr host.file i Shdr.shSize)).tdiv Dyn.size = 0 ↔
      (toInt (shdr host.file i Shdr.shSize)).natAbs < Dyn.size := by
    have hquot : ((toInt (shdr host.file i Shdr.shSize)).tdiv Dyn.size).natAbs =
        (toInt (shdr host.file i Shdr.shSize)).natAbs / Dyn.size := Int.natAbs_tdiv _ _
    rw [← Int.natAbs_eq_zero, hquot, Nat.div_eq_zero_iff]
    exact or_iff_right (by decide)
  constructor
  · intro h
    obtain ⟨_, _, hp', hn, hcount⟩ := h
    obtain rfl := Option.some.inj hp'
    obtain rfl := Option.some.inj hn
    rcases hcount with hnone | ⟨q, hq, -⟩
    · exact Or.inl (hzero.mp hnone)
    · exact Or.inr (hp.1.mp (Option.isSome_of_eq_some hq))
  · intro h
    refine ⟨p, _, rfl, rfl, ?_⟩
    rcases h with hsmall | hobtained
    · exact Or.inl (hzero.mpr hsmall)
    · obtain ⟨q, hq⟩ := Option.isSome_iff_exists.mp (hp.1.mpr hobtained)
      have hlen := hp.2 q hq
      have hle := Nat.div_mul_le_self (shdr host.file i Shdr.shSize) Dyn.size
      refine Or.inr ⟨q, hq, ?_⟩
      rw [toInt_of_lt hobtained.2.1, ← Int.ofNat_tdiv]
      exact_mod_cast hle.trans hlen

private theorem intDiv_dyn (n : Nat) :
    intDiv (toInt n) (toInt Dyn.size) = .ok ((toInt n).tdiv Dyn.size) := by
  have hrange := toInt_range n
  have hbound : ((toInt n).tdiv Dyn.size).natAbs ≤ (toInt n).natAbs / 8 := by
    rw [Int.natAbs_tdiv]
    rfl
  have height : toInt Dyn.size = (Dyn.size : Int) := by decide
  rw [height, intDiv, if_neg (by decide)]
  exact checked_of_range (by omega) (by omega)

section

variable (h : PlacedFile host.file) (hnames : NamesObtained host) (hs : Headed host.file s.vars)
include h hnames hs

private theorem wp_search {Q : Option Ptr → Proc ElfObj → Prop} (name : String)
    (hname : 0 ∉ ascii name) (hQ : Q ((firstNamed host.file name).map (sectionEntry host.file)) s) :
    wp (elfSectionHead name) Q E s :=
  (wp_elfSectionHead h.headed hnames.offset hname (names_readable h hnames.names) hs).mpr hQ

private theorem wp_section {Q : Option Ptr → Proc ElfObj → Prop} {name : String}
    (hname : 0 ∉ ascii name) (hloaded : name ∈ loadedNames)
    (hE : firstNamed host.file name = none → ∀ e s, E e s)
    (hQ : ∀ p s', s'.vars = s.vars → (p.isSome ↔ SectionObtained host name) →
      firstNamed host.file name ≠ none → Q p s') : wp (elfSection host name) Q E s := by
  rw [elfSection, wp_bind]
  apply wp_search h hnames hs name hname
  cases hfirst : firstNamed host.file name with
  | none => exact hE hfirst _ _
  | some i =>
    apply wp_contents h hnames.offset hloaded hfirst
    intro p s' hs' hp
    apply hQ p s' hs'
    · rw [hp.1, SectionObtained, hfirst]
      simp
    · rw [hfirst]
      simp

private theorem wp_elfSymRead {Q : Int → Proc ElfObj → Prop} (hunset : s.vars.symNum = none)
    (hE : firstNamed host.file ".strtab" = none → ∀ e s, E e s)
    (hQ : ∀ r s', firstNamed host.file ".strtab" ≠ none →
      s'.vars = { s.vars with
        strtab := s'.vars.strtab, sym := s'.vars.sym, symNum := s'.vars.symNum } →
      (s'.vars.symNum.isSome → s'.vars.strtab.isSome) →
      (Pair s'.vars.sym s'.vars.symNum Sym.size ↔ SectionObtained host ".strtab" ∧
        ∃ i, firstNamed host.file ".symtab" = some i ∧ EntriesObtained host i Sym.size) → Q r s') :
    wp (elfSymRead host) Q E s := by
  rw [elfSymRead, wp_bind]
  apply wp_section h hnames hs (by decide) (by decide) hE
  intro strtab s₁ hs₁ hstrtab hthere
  have hheaded : Headed host.file s₁.vars := by rwa [hs₁]
  cases strtab with
  | none =>
    rw [wp_bind, wp_perr, wp_pure]
    apply hQ _ _ hthere
    · rw [hs₁]
    · rw [hs₁, hunset]
      exact fun hset => absurd hset Bool.false_ne_true
    · rw [hs₁, hunset]
      exact iff_of_false not_pair_unset fun hall => absurd (hstrtab.mpr hall.1) Bool.false_ne_true
  | some p =>
    dsimp only
    rw [wp_bind, wp_setVars, wp_bind]
    have hset : Headed host.file { s₁.vars with strtab := some (some p) } :=
      ⟨hheaded.sections, hheaded.sectionNum, hheaded.shstrtab, hheaded.shstrtabLen⟩
    apply wp_search h hnames (s := ⟨s₁.pos, s₁.trace, _⟩) hset ".symtab" (by decide)
    cases hsymtab : firstNamed host.file ".symtab" with
    | none =>
      dsimp only [Option.map_none]
      rw [wp_bind, wp_perr, wp_pure]
      apply hQ _ _ hthere
      · rw [hs₁]
      · exact fun _ => rfl
      · rw [hs₁, hunset]
        refine iff_of_false not_pair_unset fun hall => ?_
        obtain ⟨_, hfirst, -⟩ := hall.2
        exact absurd (hsymtab.symm.trans hfirst) (Option.some_ne_none _).symm
    | some i =>
      dsimp only [Option.map_some]
      rw [wp_bind, h.headed.entry_get hnames.offset (firstNamed_some hsymtab).1 (by decide),
        wp_lift_ok, wp_bind, wp_setVars, wp_bind]
      apply wp_contents h hnames.offset (by decide) hsymtab
      intro sym s₂ hs₂ hsym
      rw [wp_bind, wp_setVars, wp_pure]
      apply hQ _ _ hthere
      · rw [hs₂, hs₁]
      · rw [hs₂]
        exact fun _ => rfl
      · rw [hs₂]
        dsimp only
        rw [pair_iff hsym (by decide)]
        constructor
        · intro hentries
          exact ⟨hstrtab.mp rfl, i, hsymtab, hentries⟩
        · intro hall
          obtain ⟨j, hfirst, hentries⟩ := hall.2
          rwa [Option.some.inj (hsymtab.symm.trans hfirst)]

/-- elf_dynsym_read: without .dynsym the pair is set to nothing. -/
private theorem wp_elfDynsymRead {Q : Int → Proc ElfObj → Prop} (hunset : s.vars.dynsymNum = none)
    (hE : firstNamed host.file ".dynstr" = none → ∀ e s, E e s)
    (hQ : ∀ r s', firstNamed host.file ".dynstr" ≠ none →
      s'.vars = { s.vars with
        dynstr := s'.vars.dynstr, dynsym := s'.vars.dynsym, dynsymNum := s'.vars.dynsymNum } →
      (Pair s'.vars.dynsym s'.vars.dynsymNum Sym.size ↔ SectionObtained host ".dynstr" ∧
        ∀ i, firstNamed host.file ".dynsym" = some i → EntriesObtained host i Sym.size) → Q r s') :
    wp (elfDynsymRead host) Q E s := by
  rw [elfDynsymRead, wp_bind]
  apply wp_section h hnames hs (by decide) (by decide) hE
  intro dynstr s₁ hs₁ hdynstr hthere
  have hheaded : Headed host.file s₁.vars := by rwa [hs₁]
  cases dynstr with
  | none =>
    rw [wp_bind, wp_perr, wp_bind, wp_setVars, wp_pure]
    apply hQ _ _ hthere
    · rw [hs₁]
    · rw [hs₁, hunset]
      exact iff_of_false not_pair_unset fun hall => absurd (hdynstr.mpr hall.1) Bool.false_ne_true
  | some p =>
    dsimp only
    rw [wp_bind, wp_setVars, wp_bind]
    have hset : Headed host.file { s₁.vars with dynstr := some (some p) } :=
      ⟨hheaded.sections, hheaded.sectionNum, hheaded.shstrtab, hheaded.shstrtabLen⟩
    apply wp_search h hnames (s := ⟨s₁.pos, s₁.trace, _⟩) hset ".dynsym" (by decide)
    cases hdynsym : firstNamed host.file ".dynsym" with
    | none =>
      dsimp only [Option.map_none]
      rw [wp_bind, wp_perr, wp_bind, wp_setVars, wp_pure]
      apply hQ _ _ hthere
      · rw [hs₁]
      · apply iff_of_true ⟨none, 0, rfl, rfl, Or.inl rfl⟩
        refine ⟨hdynstr.mp rfl, fun i hfirst => ?_⟩
        exact absurd (hdynsym.symm.trans hfirst) (Option.some_ne_none _).symm
    | some i =>
      dsimp only [Option.map_some]
      rw [wp_bind, h.headed.entry_get hnames.offset (firstNamed_some hdynsym).1 (by decide),
        wp_lift_ok, wp_bind, wp_setVars, wp_bind]
      apply wp_contents h hnames.offset (by decide) hdynsym
      intro dynsym s₂ hs₂ hgives
      rw [wp_bind, wp_setVars, wp_pure]
      apply hQ _ _ hthere
      · rw [hs₂, hs₁]
      · rw [hs₂]
        dsimp only
        rw [pair_iff hgives (by decide)]
        constructor
        · intro hentries
          refine ⟨hdynstr.mp rfl, fun j hfirst => ?_⟩
          rwa [← Option.some.inj (hdynsym.symm.trans hfirst)]
        · intro hall
          exact hall.2 i hdynsym

private theorem wp_elfDynRead {Q : Int → Proc ElfObj → Prop} (hunset : s.vars.dynNum = none)
    (hE : (∃ i, firstNamed host.file ".dynamic" = some i ∧ shdr host.file i Shdr.shEntsize = 0) →
      ∀ e s, E e s)
    (hQ : ∀ r s', s'.vars = { s.vars with dyn := s'.vars.dyn, dynNum := s'.vars.dynNum } →
      (Pair s'.vars.dyn s'.vars.dynNum Dyn.size ↔ ∃ i, firstNamed host.file ".dynamic" = some i ∧
        shdr host.file i Shdr.shEntsize = Dyn.size ∧
        ((toInt (shdr host.file i Shdr.shSize)).natAbs < Dyn.size ∨ Obtained host .contents i)) →
      Q r s') :
    wp (elfDynRead host) Q E s := by
  rw [elfDynRead, wp_bind]
  apply wp_search h hnames hs ".dynamic" (by decide)
  cases hdynamic : firstNamed host.file ".dynamic" with
  | none =>
    dsimp only [Option.map_none]
    rw [wp_bind, wp_perr, wp_pure]
    apply hQ
    · rfl
    · rw [hunset]
      refine iff_of_false not_pair_unset fun hall => ?_
      obtain ⟨_, hfirst, -⟩ := hall
      exact absurd (hdynamic.symm.trans hfirst) (Option.some_ne_none _).symm
  | some i =>
    have hget {f : Field} (hf : f.off + f.width ≤ Shdr.size) :=
      h.headed.entry_get hnames.offset (firstNamed_some hdynamic).1 hf
    have hlt := shdr_lt host.file i (f := Shdr.shEntsize) rfl
    have hcases := toInt_cases hlt
    dsimp only [Option.map_some]
    rw [wp_bind, hget (by decide), wp_lift_ok, wp_ite]
    refine ⟨fun hother => ?_, fun hfits => ?_⟩
    · rw [wp_pure]
      apply hQ
      · rfl
      · rw [hunset]
        refine iff_of_false not_pair_unset fun hall => ?_
        obtain ⟨j, hfirst, heq, -⟩ := hall
        rw [← Option.some.inj (hdynamic.symm.trans hfirst)] at heq
        exact hother.2 (by rw [heq]; rfl)
    · rw [wp_bind, hget (by decide), wp_lift_ok, wp_bind]
      by_cases hzero : shdr host.file i Shdr.shEntsize = 0
      · rw [hzero, intDiv, if_pos (show toInt 0 = 0 from rfl)]
        exact hE ⟨i, hdynamic, hzero⟩ _ _
      · have height : shdr host.file i Shdr.shEntsize = Dyn.size := by
          rw [Dyn.size] at hfits ⊢
          omega
        rw [height, intDiv_dyn, wp_lift_ok, wp_bind]
        apply wp_contents h hnames.offset (by decide) hdynamic
        intro dyn s₁ hs₁ hgives
        rw [wp_bind, wp_setVars, wp_pure]
        apply hQ
        · rw [hs₁]
        · dsimp only
          rw [pair_dyn_iff hgives]
          constructor
          · intro hentries
            exact ⟨i, hdynamic, height, hentries⟩
          · intro hall
            obtain ⟨j, hfirst, -, hentries⟩ := hall
            rwa [Option.some.inj (hdynamic.symm.trans hfirst)]

end

/-! ## The object -/

private theorem HeadersRead.headed {obj : ElfObj} (hobj : HeadersRead host obj)
    (hnames : NamesObtained host) : Headed host.file obj where
  sections := hobj.sections
  sectionNum := hobj.sectionNum
  shstrtab := (hobj.shstrtab.resolve_right fun hnone => hnone.1 hnames).2
  shstrtabLen := hobj.shstrtabLen

private theorem Headed.congr {src : List UInt8} {obj obj' : ElfObj} (h : Headed src obj)
    (hsections : obj'.sections = obj.sections) (hnum : obj'.sectionNum = obj.sectionNum)
    (hshstrtab : obj'.shstrtab = obj.shstrtab) (hlen : obj'.shstrtabLen = obj.shstrtabLen) :
    Headed src obj' :=
  ⟨hsections.trans h.sections, hnum.trans h.sectionNum, hshstrtab.trans h.shstrtab,
    hlen.trans h.shstrtabLen⟩

/-- When the headers have been read, the rest of elf_init makes a sound object or does not. -/
private theorem wp_loaders (h : PlacedFile host.file) (hs : HeadersRead host s.vars) :
    wp (do
      let _ ← elfSymRead host
      let _ ← elfDynsymRead host
      let _ ← elfDynRead host
      return true : DigRun Bool)
      (fun found s => found = true ∧ (Sound s.vars ↔ Complete host)) (fun _ _ => ¬ Complete host) s := by
  by_cases hnames : NamesObtained host
  · have hheaded := hs.headed hnames
    rw [wp_bind]
    apply wp_elfSymRead h hnames hheaded hs.symNum
    · intro hmissing _ _ hall
      obtain ⟨_, hfirst, -⟩ := hall.strtab
      exact absurd (hmissing.symm.trans hfirst) (Option.some_ne_none _).symm
    intro _ s₁ _ hk₁ hstrtab hsym
    have hheaded₁ : Headed host.file s₁.vars :=
      hheaded.congr (by rw [hk₁]) (by rw [hk₁]) (by rw [hk₁]) (by rw [hk₁])
    rw [wp_bind]
    apply wp_elfDynsymRead h hnames hheaded₁ (by rw [hk₁]; exact hs.dynsymNum)
    · intro hmissing _ _ hall
      obtain ⟨_, hfirst, -⟩ := hall.dynstr
      exact absurd (hmissing.symm.trans hfirst) (Option.some_ne_none _).symm
    intro _ s₂ _ hk₂ hdynsym
    have hheaded₂ : Headed host.file s₂.vars :=
      hheaded₁.congr (by rw [hk₂]) (by rw [hk₂]) (by rw [hk₂]) (by rw [hk₂])
    rw [wp_bind]
    apply wp_elfDynRead h hnames hheaded₂ (by rw [hk₂, hk₁]; exact hs.dynNum)
    · intro hzero _ _ hall
      obtain ⟨i, hfirst, hentsize⟩ := hzero
      obtain ⟨j, hfirst', height, -⟩ := hall.dynamic
      rw [Option.some.inj (hfirst.symm.trans hfirst'), height] at hentsize
      exact absurd hentsize (by decide)
    intro _ s₃ hk₃ hdyn
    rw [wp_pure]
    refine ⟨rfl, ?_⟩
    have hsym₃ : Pair s₃.vars.sym s₃.vars.symNum Sym.size ↔
        Pair s₁.vars.sym s₁.vars.symNum Sym.size := by
      rw [hk₃, hk₂]
    have hdynsym₃ : Pair s₃.vars.dynsym s₃.vars.dynsymNum Sym.size ↔
        Pair s₂.vars.dynsym s₂.vars.dynsymNum Sym.size := by
      rw [hk₃]
    constructor
    · intro hsound
      have hsymbols := hsym.mp (hsym₃.mp hsound.sym)
      have hdynsyms := hdynsym.mp (hdynsym₃.mp hsound.dynsym)
      exact ⟨hnames, hsymbols.1, hsymbols.2, hdynsyms.1, hdynsyms.2, hdyn.mp hsound.dyn⟩
    · intro hall
      have hpair := hsym.mpr ⟨hall.strtab, hall.symtab⟩
      have hset : Assigned s₃.vars := by
        constructor
        · rw [hk₃, hk₂, hk₁]
          exact hs.head
        · rw [hk₃, hheaded₂.sections]
          rfl
        · rw [hk₃, hheaded₂.shstrtab]
          rfl
        · rw [hk₃, hk₂]
          apply hstrtab
          obtain ⟨_, _, -, hnum, -⟩ := hpair
          rw [hnum]
          rfl
      exact sound_of_pairs hset (hsym₃.mpr hpair)
        (hdynsym₃.mpr (hdynsym.mpr ⟨hall.dynstr, hall.dynsym⟩))
        (hdyn.mpr hall.dynamic)
  · rw [wp_bind, elfSymRead, wp_bind, elfSection, wp_bind]
    exact wp_search_unnamed h hnames hs fun _ _ hall => hnames hall.names

private theorem wp_elfInit (h : PlacedFile host.file) (hopen : host.canOpen = true)
    (hobject : host.malloc .object ElfObj.size = true) :
    wp (elfInit host) (fun found s => found = true ∧ (Sound s.vars ↔ Complete host))
      (fun _ _ => ¬ Complete host) ElfObj.start := by
  have hlen := h.headed.header
  rw [Ehdr.size] at hlen
  rw [elfInit, if_neg (by rw [hopen]; decide), if_neg (by omega), if_neg (by rw [hobject]; decide),
    wp_bind]
  apply wp_headersRead h
  · intro hnames _ _ hall
    exact hnames hall.names
  · intro s hs
    exact wp_loaders h hs

end

private theorem complete_of_initLaw {host : Host} (h : PlacedFile host.file)
    (hopen : host.canOpen = true) (hobject : host.malloc .object ElfObj.size = true)
    (hlaw : InitLaw host) : Complete host := by
  unfold InitLaw at hlaw
  have hboth := wp_and (wp_elfInit h hopen hobject) hlaw
  obtain ⟨_, s, _, ⟨rfl, hsound⟩, hobj⟩ :=
    returns_of_wp (wp_mono hboth (fun _ _ hfound => hfound) fun _ _ hstop => hstop.2)
  exact hsound.mp (hobj rfl)

/-- elf_init does what it should exactly when it gets no object at all, or when .strtab, .symtab,
.dynstr and .dynamic are there and all that is read of them, and of .dynsym, can be read. -/
theorem initLaw_iff {host : Host} (h : PlacedFile host.file) : InitLaw host ↔
    host.canOpen = false ∨ host.malloc .object ElfObj.size = false ∨ Complete host := by
  cases hopen : host.canOpen with
  | false =>
    unfold InitLaw
    rw [elfInit, if_pos hopen, wp_pure]
    exact iff_of_true (fun hfound => by cases hfound) (Or.inl rfl)
  | true =>
    cases hobject : host.malloc .object ElfObj.size with
    | false =>
      have hlen := h.headed.header
      rw [Ehdr.size] at hlen
      unfold InitLaw
      rw [elfInit, if_neg (by rw [hopen]; decide), if_neg (by omega), if_pos hobject, wp_pure]
      exact iff_of_true (fun hfound => by cases hfound) (Or.inr (Or.inl rfl))
    | true =>
      constructor
      · intro hlaw
        exact Or.inr (Or.inr (complete_of_initLaw h hopen hobject hlaw))
      · intro hall
        have hcomplete : Complete host := by simpa using hall
        unfold InitLaw
        apply wp_mono (wp_elfInit h hopen hobject)
        · intro _ _ hs _
          exact hs.2.mpr hcomplete
        · intro _ _ hstop
          exact hstop hcomplete

/-! ## Two files -/

private theorem linkedFile_complete : Complete (Host.ideal linkedFile) where
  names := ⟨rfl, rfl, by decide +kernel, rfl, by decide +kernel⟩
  strtab := ⟨1, by decide +kernel, rfl, by decide +kernel⟩
  symtab := ⟨2, by decide +kernel, Or.inr ⟨rfl, by decide +kernel⟩⟩
  dynstr := ⟨3, by decide +kernel, rfl, by decide +kernel⟩
  dynsym i hfirst := by
    have hindex : firstNamed linkedFile ".dynsym" = some 4 := by decide +kernel
    rw [← Option.some.inj (hindex.symm.trans hfirst)]
    exact Or.inr ⟨rfl, by decide +kernel⟩
  dynamic := ⟨5, by decide +kernel, by decide +kernel, Or.inr ⟨rfl, by decide +kernel⟩⟩

/-- A file with all five sections. -/
theorem initLaw_linkedFile : InitLaw (Host.ideal linkedFile) :=
  (initLaw_iff (by decide +kernel)).mpr (Or.inr (Or.inr linkedFile_complete))

/-- A static executable: symbols, and nothing for the dynamic linker. -/
def staticFile : List UInt8 :=
  Ehdr.bytes 0 116 0 0 40 4 3 ++ ascii "\x00a\x00\x00" ++ Sym.bytes 0 0 0 0 ++
    Sym.bytes 1 4096 4 1 ++ ascii "\x00.strtab\x00.symtab\x00.shstrtab\x00\x00" ++
    List.replicate 40 0 ++ Shdr.bytes 1 shtStrtab 52 4 0 ++ Shdr.bytes 9 2 56 32 16 ++
    Shdr.bytes 17 shtStrtab 88 27 0

/-- Without .dynstr, elf_init follows the null pointer to its header. -/
theorem staticFile_fails : PlacedFile staticFile ∧
    (elfInit (Host.ideal staticFile) ElfObj.start).1 = .error (.fault .nullDeref) ∧
    ¬ InitLaw (Host.ideal staticFile) := by
  have hplaced : PlacedFile staticFile := by decide +kernel
  have hmissing : firstNamed staticFile ".dynstr" = none := by decide +kernel
  refine ⟨hplaced, by decide +kernel, fun hlaw => ?_⟩
  obtain ⟨_, hfirst, -⟩ := (complete_of_initLaw hplaced rfl rfl hlaw).dynstr
  exact absurd (hmissing.symm.trans hfirst) (Option.some_ne_none _).symm

end PerfTools.Elfdig
