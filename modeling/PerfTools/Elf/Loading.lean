import PerfTools.Elf.ToolRules

/-!
# Loading the section headers

The records of a file by position, and what elf_init_read leaves in the global variables when
the header and the section header table lie in the file: every header in its slot, and the
section-name table of the section that e_shstrndx chooses.
-/

namespace PerfTools.Elf

open Memory Printf Exec

/-- A member of the file header. -/
def ehdr (src : List UInt8) (f : Field) : Nat := fieldAt src 0 f

/-- Where section header i starts. -/
def shdrAt (src : List UInt8) (i : Nat) : Nat := ehdr src Ehdr.eShoff + i * ehdr src Ehdr.eShentsize

/-- A member of section header i. -/
def shdr (src : List UInt8) (i : Nat) (f : Field) : Nat := fieldAt src (shdrAt src i) f

/-- The header and the section headers are in the file, at offsets that an int holds, and there
is a slot for each of them. -/
structure SectionTable (src : List UInt8) : Prop where
  header : Ehdr.size ≤ src.length
  entsize : Shdr.size ≤ ehdr src Ehdr.eShentsize
  slots : ehdr src Ehdr.eShnum ≤ 100
  inside : ehdr src Ehdr.eShoff + ehdr src Ehdr.eShnum * ehdr src Ehdr.eShentsize ≤ src.length
  range : ∀ i < ehdr src Ehdr.eShnum, shdrAt src i < 2 ^ 31
  names : ehdr src Ehdr.eShstrndx < ehdr src Ehdr.eShnum

/-- The header, the section headers and the header that e_shstrndx chooses are in the file, at
offsets that an int holds, however many they are. -/
structure ReadableTable (src : List UInt8) : Prop where
  header : Ehdr.size ≤ src.length
  entsize : Shdr.size ≤ ehdr src Ehdr.eShentsize
  inside : ehdr src Ehdr.eShoff + ehdr src Ehdr.eShnum * ehdr src Ehdr.eShentsize ≤ src.length
  range : ∀ i < ehdr src Ehdr.eShnum, shdrAt src i < 2 ^ 31
  nameInside : shdrAt src (ehdr src Ehdr.eShstrndx) + ehdr src Ehdr.eShentsize ≤ src.length
  nameRange : shdrAt src (ehdr src Ehdr.eShstrndx) < 2 ^ 31

/-- The variables once the headers are loaded. -/
structure Loaded (host : Host) (v : ElfVars) : Prop where
  header : v.elfHeader = some (chunk host.file 0 Ehdr.size)
  sectionNum : v.sectionNum = ehdr host.file Ehdr.eShnum
  heads : ∀ i < ehdr host.file Ehdr.eShnum, v.elfSectionHead[i]? =
    some (some (chunk host.file (shdrAt host.file i) (ehdr host.file Ehdr.eShentsize)))
  screen : Restartable v.screen
  names : ∀ offset size : Nat, shdr host.file (ehdr host.file Ehdr.eShstrndx) Shdr.shOffset = offset →
    shdr host.file (ehdr host.file Ehdr.eShstrndx) Shdr.shSize = size →
    offset < 2 ^ 31 → size < 2 ^ 31 → offset + size ≤ host.file.length →
    v.elfShstrtab = some (chunk host.file offset size)

/-- The state that elf_init_read leaves. -/
structure InitRead (host : Host) (s : Proc ElfVars) : Prop where
  loaded : Loaded host s.vars
  dumps : dumps s.trace = []
  picked : ∃ ok, .read (.nameTable (chunk host.file (shdrAt host.file
    (ehdr host.file Ehdr.eShstrndx)) (ehdr host.file Ehdr.eShentsize))) ok ∈ s.trace

section

variable {host : Host}

theorem ehdr_lt (src : List UInt8) {f : Field} (hf : f.width = 2) : ehdr src f < 2 ^ 16 := by
  have h := fieldAt_lt src 0 f
  rw [hf] at h
  exact h

theorem ehdr_lt_word (src : List UInt8) {f : Field} (hf : f.width = 4) : ehdr src f < 2 ^ 32 := by
  have h := fieldAt_lt src 0 f
  rw [hf] at h
  exact h

theorem shdr_lt (src : List UInt8) (i : Nat) {f : Field} (hf : f.width = 4) :
    shdr src i f < 2 ^ 32 := by
  have h := fieldAt_lt src (shdrAt src i) f
  rw [hf] at h
  exact h

theorem shdr_toNat (src : List UInt8) (i : Nat) {f : Field} (hf : f.width = 4) :
    (UInt32.ofNat (shdr src i f)).toNat = shdr src i f := by
  rw [UInt32.toNat_ofNat']
  exact Nat.mod_eq_of_lt (shdr_lt src i hf)

theorem shdrAt_end {src : List UInt8} {i : Nat} (hi : i < ehdr src Ehdr.eShnum) :
    shdrAt src i + ehdr src Ehdr.eShentsize ≤
      ehdr src Ehdr.eShoff + ehdr src Ehdr.eShnum * ehdr src Ehdr.eShentsize := by
  have hle : (i + 1) * ehdr src Ehdr.eShentsize ≤ ehdr src Ehdr.eShnum * ehdr src Ehdr.eShentsize :=
    Nat.mul_le_mul_right _ hi
  rw [Nat.succ_mul] at hle
  unfold shdrAt
  omega

theorem member_header (h : Ehdr.size ≤ host.file.length) {f : Field}
    (hf : f.off + f.width ≤ Ehdr.size) :
    member (some (chunk host.file 0 Ehdr.size)) f = .ok (ehdr host.file f) :=
  chunk_get (by simpa using h) hf

namespace ReadableTable

variable {src : List UInt8} (h : ReadableTable src) {i : Nat} (hi : i < ehdr src Ehdr.eShnum)
include h

include hi in
theorem shdrAt_inside : shdrAt src i + ehdr src Ehdr.eShentsize ≤ src.length :=
  (shdrAt_end hi).trans h.inside

end ReadableTable

namespace SectionTable

variable {src : List UInt8} (h : SectionTable src) {i : Nat} (hi : i < ehdr src Ehdr.eShnum)
include h hi

theorem shdrAt_inside : shdrAt src i + ehdr src Ehdr.eShentsize ≤ src.length :=
  (shdrAt_end hi).trans h.inside

theorem head_get {f : Field} (hf : f.off + f.width ≤ Shdr.size) :
    (chunk src (shdrAt src i) (ehdr src Ehdr.eShentsize)).get f = .ok (shdr src i f) :=
  chunk_get (h.shdrAt_inside hi) (hf.trans h.entsize)

omit hi in
theorem readable : ReadableTable src :=
  ⟨h.header, h.entsize, h.inside, h.range, h.shdrAt_inside h.names, h.range _ h.names⟩

end SectionTable

theorem checked_natCast {n : Nat} (h : n < 2 ^ 31) : checked n = .ok n :=
  checked_of_range (by omega) (by omega)

/-- The state in which elf_init_read comes to the section headers: the names are those of the
section that e_shstrndx chooses, whether or not they could be read. -/
structure NamesRead (host : Host) (s : Proc ElfVars) : Prop where
  vars : s.vars = { ElfVars.initial with
    elfHeader := some (chunk host.file 0 Ehdr.size)
    elfShstrtabHeader := some (chunk host.file (shdrAt host.file (ehdr host.file Ehdr.eShstrndx))
      (ehdr host.file Ehdr.eShentsize))
    elfShstrtab := s.vars.elfShstrtab
    sectionOffset := ehdr host.file Ehdr.eShoff
    sectionSize := ehdr host.file Ehdr.eShentsize
    sectionNum := ehdr host.file Ehdr.eShnum }
  names : ∀ offset size : Nat, shdr host.file (ehdr host.file Ehdr.eShstrndx) Shdr.shOffset = offset →
    shdr host.file (ehdr host.file Ehdr.eShstrndx) Shdr.shSize = size →
    offset < 2 ^ 31 → size < 2 ^ 31 → offset + size ≤ host.file.length →
    s.vars.elfShstrtab = some (chunk host.file offset size)
  dumps : dumps s.trace = []
  picked : ∃ ok, .read (.nameTable (chunk host.file (shdrAt host.file
    (ehdr host.file Ehdr.eShstrndx)) (ehdr host.file Ehdr.eShentsize))) ok ∈ s.trace

section Rounds

variable (hmalloc : ∀ target n, host.malloc target n = true)
include hmalloc

private theorem wp_readSectionHead {Q : Unit → Proc ElfVars → Prop} {E : Stop → Proc ElfVars → Prop}
    {s : Proc ElfVars} {i : Nat}
    (hin : shdrAt host.file i + ehdr host.file Ehdr.eShentsize ≤ host.file.length)
    (hbelow : shdrAt host.file i < 2 ^ 31)
    (hoffset : s.vars.sectionOffset = ehdr host.file Ehdr.eShoff)
    (hsize : s.vars.sectionSize = ehdr host.file Ehdr.eShentsize)
    (hQ : i < s.vars.elfSectionHead.length →
      Q () ⟨shdrAt host.file i + ehdr host.file Ehdr.eShentsize,
        s.trace ++ [.read (.sectionHeader i) true], { s.vars with
          elfSectionHead := s.vars.elfSectionHead.set i
            (some (chunk host.file (shdrAt host.file i) (ehdr host.file Ehdr.eShentsize))) }⟩)
    (hE : ¬i < s.vars.elfSectionHead.length → ∀ s', E (.fault .outOfBounds) s') :
    wp (readSectionHead host i) Q E s := by
  have hdist : i * ehdr host.file Ehdr.eShentsize < 2 ^ 31 := by
    unfold shdrAt at hbelow
    omega
  have hdistance : checked (s.vars.sectionSize * i) =
      .ok ((i * ehdr host.file Ehdr.eShentsize : Nat) : Int) := by
    rw [hsize, show ((ehdr host.file Ehdr.eShentsize : Nat) : Int) * i =
      ((i * ehdr host.file Ehdr.eShentsize : Nat) : Int) by push_cast; ring]
    exact checked_natCast hdist
  have hat : checked (s.vars.sectionOffset + ((i * ehdr host.file Ehdr.eShentsize : Nat) : Int)) =
      .ok (shdrAt host.file i : Int) := by
    rw [hoffset, show (ehdr host.file Ehdr.eShoff : Int) +
      ((i * ehdr host.file Ehdr.eShentsize : Nat) : Int) = (shdrAt host.file i : Int) by
        unfold shdrAt; push_cast; ring]
    exact checked_natCast hbelow
  have hlt := ehdr_lt host.file (f := Ehdr.eShentsize) rfl
  rw [readSectionHead]
  simp only [wp_bind, wp_vars, hdistance, hat, wp_lift_ok]
  rw [hsize, wp_elfFileRead_inside (hmalloc _ _) (by omega) (Or.inr hin), wp_ite]
  exact ⟨hQ, fun hfull => hE hfull _⟩

omit hmalloc in
private theorem wp_readSectionHead_beyond {Q : Unit → Proc ElfVars → Prop}
    {E : Stop → Proc ElfVars → Prop} {s : Proc ElfVars} {i : Nat}
    (hbeyond : 2 ^ 31 ≤ shdrAt host.file i)
    (hoffset : s.vars.sectionOffset = ehdr host.file Ehdr.eShoff)
    (hsize : s.vars.sectionSize = ehdr host.file Ehdr.eShentsize) (hE : ∀ e s', E e s') :
    wp (readSectionHead host i) Q E s := by
  rw [readSectionHead]
  simp only [wp_bind, wp_vars]
  rw [wp_lift]
  refine ⟨fun distance hdistance => ?_, fun _ _ => hE _ _⟩
  have hvalue := (checked_eq_ok hdistance).1
  have hover : (2 : Int) ^ 31 ≤ s.vars.sectionOffset + distance := by
    rw [hvalue, hoffset, hsize, mul_comm]
    unfold shdrAt at hbeyond
    exact_mod_cast hbeyond
  rw [checked_overflow hover, wp_lift_error]
  exact hE _ _

/-- Between two rounds that follow s₀ the first n headers are in their slots. -/
structure LoadedUpTo (host : Host) (s₀ : Proc ElfVars) (n : Nat) (s : Proc ElfVars) : Prop where
  frame : s.vars = { s₀.vars with elfSectionHead := s.vars.elfSectionHead }
  slots : s.vars.elfSectionHead.length = 100
  heads : ∀ i < n, s.vars.elfSectionHead[i]? =
    some (some (chunk host.file (shdrAt host.file i) (ehdr host.file Ehdr.eShentsize)))
  trace : ∃ es, s.trace = s₀.trace ++ es ∧ dumps es = []

/-- As many rounds as there are slots: the headers start below 2 GiB, or the loop stops. -/
theorem wp_readSectionHeads {Q : Unit → Proc ElfVars → Prop} {E : Stop → Proc ElfVars → Prop}
    {s : Proc ElfVars} {n : Nat} (hle : n ≤ 100)
    (hin : ∀ i < n, shdrAt host.file i + ehdr host.file Ehdr.eShentsize ≤ host.file.length)
    (hoffset : s.vars.sectionOffset = ehdr host.file Ehdr.eShoff)
    (hsize : s.vars.sectionSize = ehdr host.file Ehdr.eShentsize)
    (hslots : s.vars.elfSectionHead.length = 100)
    (hbad : ¬(∀ i < n, shdrAt host.file i < 2 ^ 31) → ∀ e s', E e s')
    (hQ : ∀ s', (∀ i < n, shdrAt host.file i < 2 ^ 31) → LoadedUpTo host s n s' → Q () s') :
    wp (loop (readSectionHead host) n 0) Q E s := by
  have hstart : LoadedUpTo host s 0 s := ⟨rfl, hslots, by simp, [], by simp, rfl⟩
  apply wp_mono (wp_loop (readSectionHead host) (i := 0) (n := n)
    (fun k t => (∀ i < k, shdrAt host.file i < 2 ^ 31) ∧ LoadedUpTo host s k t) ?_
    ⟨by simp, hstart⟩) ?_ fun _ _ he => he
  · intro k t _ hk hinv
    rw [Nat.zero_add] at hk
    have hframe := hinv.2.frame
    obtain ⟨es, htrace, hes⟩ := hinv.2.trace
    have hoffset' : t.vars.sectionOffset = ehdr host.file Ehdr.eShoff := by rw [hframe, hoffset]
    have hsize' : t.vars.sectionSize = ehdr host.file Ehdr.eShentsize := by rw [hframe, hsize]
    by_cases hbelow : shdrAt host.file k < 2 ^ 31
    · apply wp_readSectionHead hmalloc (hin k hk) hbelow hoffset' hsize'
      · intro hlt
        constructor
        · intro i hi
          rcases Nat.lt_succ_iff_lt_or_eq.mp hi with hik | rfl
          · exact hinv.1 i hik
          · exact hbelow
        refine ⟨?_, by simpa using hinv.2.slots, fun i hi => ?_,
          es ++ [.read (.sectionHeader k) true], by rw [htrace, List.append_assoc],
          by rw [dumps_append, hes]; rfl⟩
        · conv_lhs => rw [hframe]
        · by_cases hik : i = k
          · subst hik
            simp [hlt]
          · rw [List.getElem?_set_ne (Ne.symm hik)]
            exact hinv.2.heads i (by omega)
      · intro hfull
        have hlen := hinv.2.slots
        omega
    · apply wp_readSectionHead_beyond (by omega) hoffset' hsize'
      apply hbad
      intro hall
      exact hbelow (hall k hk)
  · intro _ t ht
    rw [Nat.zero_add] at ht
    exact hQ t ht.1 ht.2

/-- elf_init_read up to the loop over the section headers: the header that e_shstrndx chooses is
in the file, below 2 GiB. -/
theorem wp_elfInitRead_names {Q : Unit → Proc ElfVars → Prop} {E : Stop → Proc ElfVars → Prop}
    (hheader : Ehdr.size ≤ host.file.length) (hentsize : Shdr.size ≤ ehdr host.file Ehdr.eShentsize)
    (hin : shdrAt host.file (ehdr host.file Ehdr.eShstrndx) + ehdr host.file Ehdr.eShentsize ≤
      host.file.length)
    (hrange : shdrAt host.file (ehdr host.file Ehdr.eShstrndx) < 2 ^ 31)
    (hQ : ∀ s, NamesRead host s →
      (∃ target pos, s.vars.elfShstrtab = (host.transfer target (toUnsigned (toInt (shdr host.file
        (ehdr host.file Ehdr.eShstrndx) Shdr.shSize))).toNat pos
        (toInt (shdr host.file (ehdr host.file Ehdr.eShstrndx) Shdr.shOffset))
        (toInt (shdr host.file (ehdr host.file Ehdr.eShstrndx) Shdr.shSize))).1) →
      wp (loop (readSectionHead host) (ehdr host.file Ehdr.eShnum) 0) Q E s) :
    wp (elfInitRead host) Q E ElfVars.start := by
  have hm : ∀ {f : Field}, f.off + f.width ≤ Ehdr.size →
      member (some (chunk host.file 0 Ehdr.size)) f = .ok (ehdr host.file f) := fun hf =>
    member_header hheader hf
  have hget : ∀ {f : Field}, f.off + f.width ≤ Shdr.size →
      (chunk host.file (shdrAt host.file (ehdr host.file Ehdr.eShstrndx))
        (ehdr host.file Ehdr.eShentsize)).get f =
          .ok (shdr host.file (ehdr host.file Ehdr.eShstrndx) f) := fun hf =>
    chunk_get hin (hf.trans hentsize)
  have hshoff : toInt (ehdr host.file Ehdr.eShoff) = ehdr host.file Ehdr.eShoff := by
    unfold shdrAt at hrange
    exact toInt_of_lt (by omega)
  have hsize := ehdr_lt host.file (f := Ehdr.eShentsize) rfl
  have hdistance : checked ((ehdr host.file Ehdr.eShstrndx : Int) * ehdr host.file Ehdr.eShentsize) =
      .ok ((ehdr host.file Ehdr.eShstrndx * ehdr host.file Ehdr.eShentsize : Nat) : Int) := by
    rw [← Nat.cast_mul]
    exact checked_natCast (by unfold shdrAt at hrange; omega)
  have hat : checked ((ehdr host.file Ehdr.eShoff : Int) +
      ((ehdr host.file Ehdr.eShstrndx * ehdr host.file Ehdr.eShentsize : Nat) : Int)) =
      .ok (shdrAt host.file (ehdr host.file Ehdr.eShstrndx) : Int) := by
    rw [← Nat.cast_add]
    exact checked_natCast hrange
  rw [elfInitRead, wp_bind]
  refine (wp_elfFileRead_inside (hmalloc _ _) (by decide) (Or.inr (by simpa using hheader))).mpr ?_
  simp only [wp_bind, wp_setVars, hm (f := Ehdr.eShoff) (by decide),
    hm (f := Ehdr.eShentsize) (by decide), hm (f := Ehdr.eShnum) (by decide),
    hm (f := Ehdr.eShstrndx) (by decide), wp_lift_ok, hshoff, hdistance, hat]
  refine (wp_elfFileRead_inside (hmalloc _ _) (by omega) (Or.inr hin)).mpr ?_
  simp only [deref_some, wp_lift_ok, wp_setVars, wp_emit, wp_runIf_perr,
    hget (f := Shdr.shType) (by decide), hget (f := Shdr.shOffset) (by decide),
    hget (f := Shdr.shSize) (by decide), wp_elfFileRead]
  refine hQ _ ⟨rfl, ?_, ?_, _, List.mem_append_right _ Host.transfer_reports⟩ ⟨_, _, rfl⟩
  · intro offset size hoffset hsize ho hs hin
    rw [hoffset, hsize, transfer_described hmalloc ho hs (Or.inr hin)]
  · simp only [dumps_append, Host.dumps_transfer]
    split_ifs <;> rfl

end Rounds

section Run

variable (h : ReadableTable host.file) (hmalloc : ∀ target n, host.malloc target n = true)
include h hmalloc

theorem wp_elfInitRead_heads {Q : Unit → Proc ElfVars → Prop} {E : Stop → Proc ElfVars → Prop}
    (hslots : ehdr host.file Ehdr.eShnum ≤ 100)
    (hQ : ∀ s₀ s, NamesRead host s₀ → LoadedUpTo host s₀ (ehdr host.file Ehdr.eShnum) s → Q () s) :
    wp (elfInitRead host) Q E ElfVars.start := by
  apply wp_elfInitRead_names hmalloc h.header h.entsize h.nameInside h.nameRange
  intro s₀ hs₀ _
  have hvars := hs₀.vars
  apply wp_readSectionHeads hmalloc hslots (fun i hi => h.shdrAt_inside hi) (by rw [hvars])
    (by rw [hvars]) (by rw [hvars]; rfl) fun hbeyond => absurd h.range hbeyond
  intro s _ hs
  exact hQ s₀ s hs₀ hs

/-- With more headers than slots the loop leaves its array at header 100. -/
theorem wp_elfInitRead_full {Q : Unit → Proc ElfVars → Prop} {E : Stop → Proc ElfVars → Prop}
    (hfull : 100 < ehdr host.file Ehdr.eShnum) (hE : ∀ s, E (.fault .outOfBounds) s) :
    wp (elfInitRead host) Q E ElfVars.start := by
  apply wp_elfInitRead_names hmalloc h.header h.entsize h.nameInside h.nameRange
  intro s₀ hs₀ _
  have hvars := hs₀.vars
  obtain ⟨n, hn⟩ : ∃ n, ehdr host.file Ehdr.eShnum = 100 + (n + 1) :=
    ⟨ehdr host.file Ehdr.eShnum - 101, by omega⟩
  have hbelow : ∀ i < 100, shdrAt host.file i < 2 ^ 31 := fun i hi => h.range i (by omega)
  rw [hn, loop_add]
  apply wp_readSectionHeads hmalloc le_rfl (fun i hi => h.shdrAt_inside (by omega))
    (by rw [hvars]) (by rw [hvars]) (by rw [hvars]; rfl) fun hbeyond => absurd hbelow hbeyond
  intro s _ hs
  have hframe := hs.frame
  rw [loop, wp_bind]
  apply wp_readSectionHead hmalloc (h.shdrAt_inside (by omega)) (h.range _ (by omega))
  · rw [hframe, hvars]
  · rw [hframe, hvars]
  · intro hlt
    rw [hs.slots] at hlt
    omega
  · intro _ s'
    exact hE s'

end Run

/-- elf_init_read on a file with a section table. The name table is the one of the section that
e_shstrndx chooses; whether it could be read is left to the read. -/
theorem wp_elfInitRead (h : SectionTable host.file)
    (hmalloc : ∀ target n, host.malloc target n = true) {Q : Unit → Proc ElfVars → Prop}
    {E : Stop → Proc ElfVars → Prop} (hQ : ∀ s, InitRead host s → Q () s) :
    wp (elfInitRead host) Q E ElfVars.start := by
  apply wp_elfInitRead_heads h.readable hmalloc h.slots
  intro s₀ s hs₀ hs
  have hvars := hs₀.vars
  have hframe := hs.frame
  obtain ⟨es, htrace, hes⟩ := hs.trace
  obtain ⟨ok, hpicked⟩ := hs₀.picked
  apply hQ
  refine ⟨⟨by rw [hframe, hvars], by rw [hframe, hvars], hs.heads, ?_, ?_⟩,
    by rw [htrace, dumps_append, hs₀.dumps, hes]; rfl, ok, ?_⟩
  · rw [hframe, hvars]
    exact initial_restartable
  · rw [hframe]
    exact hs₀.names
  · rw [htrace]
    exact List.mem_append_left _ hpicked

end

end PerfTools.Elf
