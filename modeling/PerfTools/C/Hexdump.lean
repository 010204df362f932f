import PerfTools.Lib.Exec
import PerfTools.Lib.Numbers
import PerfTools.Lib.Printf

/-!
# The word dump

dump_data prints a buffer as 64-bit words, four to a line behind the address of the first one.
Whole lines are printed by a loop, and the words of a last shorter line by a case for each
number of words. The state is what has been printed, with the place of every load.
-/

namespace PerfTools.C

open Memory Printf Exec Numbers

/-- What has been printed, and where in the block of the buffer each load began. -/
structure Dump where
  out : Text
  reads : List Nat
  deriving DecidableEq

/-- The width of an unsigned long. -/
def longSize : Nat := 8

/-- *(unsigned long*)(data + off) -/
def readLong (data : Ptr) (off : Nat) : Exec Dump Nat := do
  modify fun d => { d with reads := d.reads ++ [data.off + off] }
  lift (data.get ⟨off, longSize⟩)

def readLongs (data : Ptr) : List Nat → Exec Dump (List Nat)
  | [] => pure []
  | off :: offs => do
    let v ← readLong data off
    let vs ← readLongs data offs
    return v :: vs

/-- The text of a line: an address, the mark behind it, and the values. -/
def lineText (address : Nat) (mark : String) (values : List Nat) : Text :=
  ascii "[" ++ hexText address ++ ascii "]" ++ ascii mark ++
    values.flatMap (fun v => ascii " " ++ hexText v) ++ ascii "\n"

/-- The printf calls of dump_data; base is the address of the block. -/
def printLongs (base : Nat) (mark : String) (data : Ptr) (offs : List Nat) : Exec Dump Unit := do
  let values ← readLongs data offs
  modify fun d => { d with out := d.out ++ lineText (base + data.off) mark values }

/-- A round of the loop prints a line and moves the pointer behind it. -/
def printLine (base : Nat) (data : Ptr) : Exec Dump Ptr := do
  printLongs base ":" data [0, 8, 16, 24]
  return data.add 32

def dumpData (base : Nat) (data : Ptr) (len : Int) (message : CString) : Exec Dump Unit := do
  let lines := (len.tdiv 32).toNat
  let remain := len.tmod 32
  modify fun d => { d with out := d.out ++ message.chars ++ ascii "\n" }
  let data ← fold (fun _ data => printLine base data) lines 0 data
  match remain.tdiv 8 with
  | 1 => printLongs base "" data [0]
  | 2 => printLongs base "" data [0, 8]
  | 3 => printLongs base "" data [8, 16, 24]
  | _ => pure ()

/-- Word k of a buffer. -/
def word (data : Ptr) (k : Nat) : Nat := leNat ((data.tail.drop (longSize * k)).take longSize)

/-- The line of the words from number k on, n of them; a full line has a colon. -/
def wordLine (base : Nat) (data : Ptr) (k n : Nat) : Text :=
  lineText (base + data.off + longSize * k) (if n = 4 then ":" else "")
    ((List.range n).map fun j => word data (k + j))

/-- The first n words of a buffer, four to a line. -/
def listing (base : Nat) (data : Ptr) (n : Nat) : Text :=
  (List.range ((n + 3) / 4)).flatMap fun l => wordLine base data (4 * l) (min 4 (n - 4 * l))

/-- The dump of len bytes lists their complete words and loads nothing behind them. -/
structure WordsShown (base : Nat) (data : Ptr) (len : Nat) (message : CString) : Prop where
  returns : (dumpData base data len message ⟨[], []⟩).1 = .ok ()
  text : (dumpData base data len message ⟨[], []⟩).2.out =
    message.chars ++ ascii "\n" ++ listing base data (len / longSize)
  inside : ∀ r ∈ (dumpData base data len message ⟨[], []⟩).2.reads,
    r + longSize ≤ data.off + len

section

variable {base : Nat} {data : Ptr} {len : Nat} {message : CString}

/-- The loads of a line return their words, unless one leaves the block. -/
theorem wp_readLongs (offs : List Nat) (d : Dump) :
    wp (readLongs data offs)
      (fun vs d' => vs = offs.map (fun off => fieldAt data.tail 0 ⟨off, longSize⟩) ∧
        d' = { d with reads := d.reads ++ offs.map (data.off + ·) })
      (fun _ _ => ∃ off ∈ offs, data.tail.length < off + longSize) d := by
  induction offs generalizing d with
  | nil =>
    rw [readLongs, wp_pure]
    simp
  | cons off offs ih =>
    rw [readLongs, wp_bind, readLong, wp_bind, wp_modify, wp_lift]
    constructor
    · intro v hv
      rw [wp_bind]
      apply wp_mono (ih _)
      · rintro vs d' ⟨rfl, rfl⟩
        rw [wp_pure, (Ptr.get_eq_ok hv).2]
        simp
      · rintro e d' ⟨off', hmem, hout⟩
        exact ⟨off', List.mem_cons_of_mem off hmem, hout⟩
    · intro e he
      refine ⟨off, List.mem_cons_self, ?_⟩
      by_contra hin
      rw [Ptr.get, if_pos (by simpa using hin)] at he
      cases he

theorem wp_printLongs (mark : String) (offs : List Nat) (d : Dump) :
    wp (printLongs base mark data offs)
      (fun _ d' => d' = ⟨d.out ++ lineText (base + data.off) mark
        (offs.map fun off => fieldAt data.tail 0 ⟨off, longSize⟩),
        d.reads ++ offs.map (data.off + ·)⟩)
      (fun _ _ => ∃ off ∈ offs, data.tail.length < off + longSize) d := by
  rw [printLongs, wp_bind]
  apply wp_mono (wp_readLongs offs d)
  · rintro vs d' ⟨rfl, rfl⟩
    rfl
  · intro e d' h
    exact h

private theorem lineText_words (k n : Nat) :
    lineText (base + (data.add (longSize * k)).off) (if n = 4 then ":" else "")
      (((List.range n).map (longSize * ·)).map
        fun off => fieldAt (data.add (longSize * k)).tail 0 ⟨off, longSize⟩) =
      wordLine base data k n := by
  have hwords : ((fun off => fieldAt (data.add (longSize * k)).tail 0 ⟨off, longSize⟩) ∘
      (longSize * ·)) = fun j => word data (k + j) := by
    funext j
    rw [Function.comp_apply, fieldAt, Ptr.add_tail, word, List.drop_drop, Nat.zero_add, Nat.mul_add]
  rw [wordLine, List.map_map, hwords, Ptr.add, Nat.add_assoc]

theorem listing_eq (n : Nat) :
    listing base data n = (List.range (n / 4)).flatMap (fun l => wordLine base data (4 * l) 4) ++
      if n % 4 = 0 then [] else wordLine base data (4 * (n / 4)) (n % 4) := by
  have hfull : (List.range (n / 4)).flatMap
      (fun l => wordLine base data (4 * l) (min 4 (n - 4 * l))) =
      (List.range (n / 4)).flatMap (fun l => wordLine base data (4 * l) 4) := by
    apply List.flatMap_congr
    intro l hl
    have hlt := List.mem_range.mp hl
    rw [Nat.min_eq_left (by omega)]
  rw [listing]
  split_ifs with hmod
  · rw [show (n + 3) / 4 = n / 4 by omega, hfull, List.append_nil]
  · rw [show (n + 3) / 4 = n / 4 + 1 by omega, List.range_succ, List.flatMap_append, hfull,
      List.flatMap_singleton, Nat.min_eq_right (by omega), show n - 4 * (n / 4) = n % 4 by omega]

/-- What holds after l whole lines. -/
structure LinesDone (base : Nat) (data : Ptr) (message : CString) (l : Nat) (p : Ptr) (d : Dump) :
    Prop where
  place : p = data.add (longSize * (4 * l))
  text : d.out = message.chars ++ ascii "\n" ++
    (List.range l).flatMap fun l => wordLine base data (4 * l) 4
  inside : ∀ r ∈ d.reads, r + longSize ≤ data.off + longSize * (4 * l)

private theorem wp_printWords {l n : Nat} {p : Ptr} {d : Dump}
    (h : LinesDone base data message l p d)
    (hin : longSize * (4 * l + n) ≤ data.tail.length) :
    wp (printLongs base (if n = 4 then ":" else "") p ((List.range n).map (longSize * ·)))
      (fun _ d' => d'.out = d.out ++ wordLine base data (4 * l) n ∧
        ∀ r ∈ d'.reads, r + longSize ≤ data.off + longSize * (4 * l + n))
      (fun _ _ => False) d := by
  rw [longSize] at hin
  obtain rfl := h.place
  apply wp_mono (wp_printLongs _ _ d)
  · rintro u d' rfl
    rw [lineText_words]
    refine ⟨rfl, fun r hr => ?_⟩
    rcases List.mem_append.mp hr with hold | hnew
    · have hr := h.inside r hold
      rw [longSize] at hr ⊢
      omega
    · simp only [List.map_map, List.mem_map, List.mem_range, Function.comp_apply] at hnew
      obtain ⟨j, hj, rfl⟩ := hnew
      change data.off + 8 * (4 * l) + 8 * j + 8 ≤ data.off + 8 * (4 * l + n)
      omega
  · rintro e d' ⟨off, hmem, hout⟩
    obtain ⟨j, hj, rfl⟩ := List.mem_map.mp hmem
    have hjn := List.mem_range.mp hj
    rw [Ptr.add_tail, List.length_drop, longSize] at hout
    omega

private theorem wp_lines {n : Nat} (hin : longSize * (4 * n) ≤ data.tail.length) :
    wp (fold (fun _ data => printLine base data) n 0 data) (LinesDone base data message n)
      (fun _ _ => False)
      ⟨message.chars ++ ascii "\n", []⟩ := by
  have hstart : LinesDone base data message 0 data ⟨message.chars ++ ascii "\n", []⟩ :=
    ⟨rfl, (List.append_nil _).symm, fun _ hr => absurd hr List.not_mem_nil⟩
  have hround (l : Nat) (p : Ptr) (d : Dump) (_ : 0 ≤ l) (hlt : l < 0 + n)
      (h : LinesDone base data message l p d) :
      wp (printLine base p) (LinesDone base data message (l + 1)) (fun _ _ => False) d := by
    rw [longSize] at hin
    rw [printLine, wp_bind]
    apply wp_mono (wp_printWords h (n := 4) (by rw [longSize]; omega))
    · rintro u d' ⟨hout, hreads⟩
      rw [wp_pure]
      refine ⟨?_, ?_, hreads⟩
      · rw [h.place, Ptr.add_add, longSize]
        congr 1
      · rw [hout, h.text, List.range_succ, List.flatMap_append, List.flatMap_singleton,
          List.append_assoc]
    · exact fun _ _ hfalse => hfalse
  have hloop := wp_fold (fun _ data => printLine base data) _ hround hstart
  rwa [Nat.zero_add] at hloop

/-- The case behind the loop by the number of words left. -/
private theorem dumpData_eq (base : Nat) (data : Ptr) (len : Nat) (message : CString) :
    dumpData base data len message = (do
      modify fun d => { d with out := d.out ++ message.chars ++ ascii "\n" }
      let data ← fold (fun _ data => printLine base data) (len / 32) 0 data
      match len % 32 / 8 with
      | 1 => printLongs base "" data [0]
      | 2 => printLongs base "" data [0, 8]
      | 3 => printLongs base "" data [8, 16, 24]
      | _ => pure ()) := by
  have hlines : ((len : Int).tdiv 32).toNat = len / 32 := by
    rw [Int.tdiv_eq_ediv_of_nonneg (by omega)]
    omega
  have hremain : ((len : Int).tmod 32).tdiv 8 = (len % 32 / 8 : Nat) := by
    rw [Int.tmod_eq_emod_of_nonneg (by omega), Int.tdiv_eq_ediv_of_nonneg (by omega)]
    omega
  have hsmall : len % 32 / 8 < 4 := by omega
  simp only [dumpData, hlines, hremain]
  interval_cases len % 32 / 8 <;> rfl

private theorem loads_behind (base : Nat) (message : CString) (hin : len ≤ data.tail.length)
    (h : len % 32 / 8 = 3) :
    wp (dumpData base data len message)
      (fun _ d => ∃ r ∈ d.reads, data.off + len < r + longSize) (fun _ _ => True) ⟨[], []⟩ := by
  have hlines : longSize * (4 * (len / 32)) ≤ data.tail.length := by
    rw [longSize]
    omega
  rw [dumpData_eq, h, wp_bind, wp_modify, wp_bind]
  apply wp_mono (wp_lines hlines) _ fun _ _ _ => trivial
  intro p d hd
  apply wp_mono (wp_printLongs "" [8, 16, 24] d) _ fun _ _ _ => trivial
  rintro u d' rfl
  refine ⟨p.off + 24, by simp, ?_⟩
  rw [hd.place, longSize]
  change data.off + len < data.off + 8 * (4 * (len / 32)) + 24 + 8
  omega

private theorem words_listed (base : Nat) (message : CString) (hin : len ≤ data.tail.length)
    (h : len % 32 / 8 ≠ 3) :
    wp (dumpData base data len message)
      (fun _ d => d.out = message.chars ++ ascii "\n" ++ listing base data (len / longSize) ∧
        ∀ r ∈ d.reads, r + longSize ≤ data.off + len) (fun _ _ => False) ⟨[], []⟩ := by
  have hlines : longSize * (4 * (len / 32)) ≤ data.tail.length := by
    rw [longSize]
    omega
  have hwhole : len / longSize / 4 = len / 32 := by
    rw [longSize, Nat.div_div_eq_div_mul]
  have hleft : len / longSize % 4 = len % 32 / 8 := by
    rw [longSize]
    omega
  have hlast (n : Nat) (hn : len % 32 / 8 = n) (p : Ptr) (d : Dump)
      (hd : LinesDone base data message (len / 32) p d) (hpos : n ≠ 0) :
      wp (printLongs base (if n = 4 then ":" else "") p ((List.range n).map (longSize * ·)))
        (fun _ d => d.out = message.chars ++ ascii "\n" ++ listing base data (len / longSize) ∧
          ∀ r ∈ d.reads, r + longSize ≤ data.off + len) (fun _ _ => False) d := by
    have hroom : longSize * (4 * (len / 32) + n) ≤ len := by
      rw [longSize]
      omega
    apply wp_mono (wp_printWords hd (hroom.trans hin))
    · rintro u d' ⟨hout, hreads⟩
      refine ⟨?_, fun r hr => (hreads r hr).trans (by omega)⟩
      rw [hout, hd.text, listing_eq, hwhole, hleft, hn, if_neg hpos, List.append_assoc]
    · exact fun _ _ hfalse => hfalse
  rw [dumpData_eq, wp_bind, wp_modify, wp_bind]
  apply wp_mono (wp_lines hlines) _ fun _ _ hfalse => hfalse
  intro p d hd
  have hsmall : len % 32 / 8 < 3 := by omega
  rcases hn : len % 32 / 8 with _ | _ | _ | n
  · refine ⟨?_, fun r hr => (hd.inside r hr).trans (by rw [longSize]; omega)⟩
    rw [hd.text, listing_eq, hwhole, hleft, hn, if_pos rfl, List.append_nil]
  · exact hlast 1 hn p d hd (by decide)
  · exact hlast 2 hn p d hd (by decide)
  · omega

/-- Every complete word is dumped and nothing behind the buffer is read, unless three words are
left for the last line. -/
theorem wordsShown_iff (hin : len ≤ data.tail.length) :
    WordsShown base data len message ↔ len % 32 / 8 ≠ 3 := by
  constructor
  · intro hshown h
    have hrun := loads_behind base message hin h
    unfold wp at hrun
    have hreturns := hshown.returns
    have hinside := hshown.inside
    rcases hd : dumpData base data len message ⟨[], []⟩ with ⟨e | u, d⟩
    · rw [hd] at hreturns
      cases hreturns
    · rw [hd] at hrun hinside
      obtain ⟨r, hr, hout⟩ := hrun
      have hle := hinside r hr
      omega
  · intro h
    obtain ⟨u, d, hrun, htext, hinside⟩ :=
      returns_of_wp (words_listed base message hin h)
    constructor
    · rw [hrun]
    · rw [hrun]
      exact htext
    · rw [hrun]
      exact hinside

/-- The buffer of main. -/
def buf : Ptr := ⟨⟨(List.range 128).map UInt8.ofNat, 0⟩, 0⟩

def dd24 : CString := ⟨ascii "dd24", by decide⟩

/-- Of its first three words the second, the third and the fourth are shown. -/
theorem threeWords_shifted : ¬ WordsShown 4096 buf 24 dd24 := by
  intro h
  have hshifted : (dumpData 4096 buf (24 : Nat) dd24 ⟨[], []⟩).2.out =
        dd24.chars ++ ascii "\n" ++ lineText 4096 "" ((List.range 3).map fun j => word buf (j + 1)) ∧
      lineText 4096 "" ((List.range 3).map fun j => word buf (j + 1)) ≠
        listing 4096 buf (24 / longSize) := by
    decide +kernel
  have htext := h.text
  rw [hshifted.1] at htext
  exact hshifted.2 (List.append_cancel_left htext)

/-- Two whole lines and one word more, of which the last line shows the number and no colon. -/
theorem wordsShown_nineWords : WordsShown 4096 buf 72 ⟨ascii "dd", by decide⟩ :=
  (wordsShown_iff (by simp [buf, Ptr.tail])).mpr (by decide)

end

end PerfTools.C
