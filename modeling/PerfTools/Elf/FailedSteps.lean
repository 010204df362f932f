import PerfTools.Elf.ToolRules

/-!
# Steps that fail

A run goes on from what its reads have given. Here are the events of the steps that everything
else rests on, what it means that a run stops when one of them fails, and when a read succeeds.
-/

namespace PerfTools.Elf

open Memory Exec

/-- The event does not tell of a header or table that could not be read, or of section names that
are taken from a section of another type. -/
def Event.Safe : Event → Prop
  | .read (.contents _) _ => True
  | .read (.nameTable head) ok => ok = true ∧ head.get Shdr.shType = .ok shtStrtab
  | .read _ ok => ok = true
  | .check ok => ok = true
  | _ => True

/-- A step has failed: the read of a header or table, or the check of a type. -/
def Event.Fails : Event → Prop
  | .read (.contents _) _ => False
  | .read _ ok => ok = false
  | .check ok => ok = false
  | _ => False

def Event.Message : Event → Prop
  | .perr _ _ => True
  | _ => False

/-- When a step fails, the run is refused and nothing but messages follows, and the section names
are looked for only in a section that has their type. -/
structure StopsAtFailure (refused : Prop) (trace : List Event) : Prop where
  stops : ∀ front e rest, trace = front ++ e :: rest → e.Fails →
    refused ∧ ∀ e' ∈ rest, e'.Message
  checked : ∀ head ok, .read (.nameTable head) ok ∈ trace → head.get Shdr.shType = .ok shtStrtab

/-- Nothing has failed. -/
def Clean {γ : Type} (s : Proc γ) : Prop := ∀ e ∈ s.trace, e.Safe

theorem Event.safe_iff (e : Event) : e.Safe ↔ ¬ e.Fails ∧
    ∀ head ok, e = .read (.nameTable head) ok → head.get Shdr.shType = .ok shtStrtab := by
  cases e with
  | read target ok =>
    cases target with
    | nameTable head => simp [Safe, Fails]
    | _ => simp [Safe, Fails]
  | _ => simp [Safe, Fails]

theorem stopsAtFailure_of_safe {refused : Prop} {trace : List Event} (h : ∀ e ∈ trace, e.Safe) :
    StopsAtFailure refused trace where
  stops front e rest htrace hfails := by
    have hsafe := h e (by rw [htrace]; exact List.mem_append_right _ (List.mem_cons_self ..))
    exact absurd hfails (e.safe_iff.mp hsafe).1
  checked head ok he := ((Event.safe_iff _).mp (h _ he)).2 head ok rfl

/-- A run that goes on after whatever fails has to be safe. -/
theorem StopsAtFailure.safe {refused : Prop} {trace : List Event}
    (h : StopsAtFailure refused trace)
    (hon : ∀ front e rest, trace = front ++ e :: rest → ¬ e.Safe → refused →
      ∃ e' ∈ rest, ¬ e'.Message) : ∀ e ∈ trace, e.Safe := by
  intro e he
  obtain ⟨front, rest, htrace⟩ := List.append_of_mem he
  rw [Event.safe_iff]
  constructor
  · intro hfails
    obtain ⟨hrefused, hmessages⟩ := h.stops front e rest htrace hfails
    have hunsafe : ¬ e.Safe := fun hsafe => (e.safe_iff.mp hsafe).1 hfails
    obtain ⟨e', he', hother⟩ := hon front e rest htrace hunsafe hrefused
    exact hother (hmessages e' he')
  · intro head ok heq
    exact h.checked head ok (heq ▸ he)

/-! ## Memory that a read has filled -/

/-- The memory behind the pointer is n bytes of src. -/
structure Holds (src : List UInt8) (p : Ptr) (n : Nat) : Prop where
  length : p.tail.length = n
  bytes : p.tail = (src.drop p.position).take n

theorem Served.holds {host : Host} {target : Target} {pos size : Nat} {offset : Int}
    (h : Served host target size pos offset size) :
    Holds host.file (chunk host.file (seekTo pos offset) size) size := by
  have hinside := h.inside
  refine ⟨?_, rfl⟩
  rw [chunk_tail, List.length_take, List.length_drop]
  omega

namespace Holds

variable {src : List UInt8} {p : Ptr} {n : Nat} (h : Holds src p n)
include h

theorem views : p.Views src n := by
  refine ⟨h.length.ge, ?_⟩
  rw [List.take_of_length_le h.length.le]
  exact h.bytes

theorem add (k : Nat) : Holds src (p.add k) (n - k) := by
  refine ⟨?_, ?_⟩
  · rw [Ptr.add_tail, List.length_drop, h.length]
  · rw [Ptr.add_tail, Ptr.add_position, h.bytes, List.drop_take, List.drop_drop]

theorem get_iff {f : Field} {i : Nat} :
    p.get f = .ok i ↔ f.off + f.width ≤ n ∧ i = fieldAt src p.position f := by
  constructor
  · intro hget
    have hin := (Ptr.get_eq_ok hget).1
    rw [h.length] at hin
    rw [Ptr.get_of_views h.views hin] at hget
    exact ⟨hin, (Except.ok.inj hget).symm⟩
  · intro hin
    rw [hin.2]
    exact Ptr.get_of_views h.views hin.1

end Holds

/-! ## Runs in which nothing fails -/

section

variable {γ α β : Type} {s : Proc γ} {host : Host} {m : Exec (Proc γ) α}
  {f : α → Exec (Proc γ) β} {Q : β → Proc γ → Prop}

theorem clean_append {pos : Nat} {es : List Event} {v : γ} :
    Clean ⟨pos, s.trace ++ es, v⟩ ↔ Clean s ∧ ∀ e ∈ es, e.Safe := by
  unfold Clean
  rw [List.forall_mem_append]

theorem keeps_unclean_setVars (g : γ → γ) : Keeps (fun s : Proc γ => ¬ Clean s) (setVars g) :=
  fun _ hs => ⟨trivial, hs⟩

theorem keeps_unclean_fileRead (target : Target) (request : Nat) {seek : Exec (Proc γ) Int}
    {offset : Int} (hseek : ∀ s, seek s = lseek offset s) (size : Int) :
    Keeps (fun s => ¬ Clean s) (fileRead host target request seek offset size) := by
  intro s hs
  rw [wp_of_eq (fileRead_apply host target request hseek size s)]
  exact ⟨trivial, mt (fun h => (clean_append.mp h).1) hs⟩

theorem wp_fileRead_iff {next : Option Ptr → Exec (Proc γ) β} {target : Target} {request : Nat}
    {seek : Exec (Proc γ) Int} {offset size : Int} (hseek : ∀ s, seek s = lseek offset s)
    (hQ : ∀ b s, Q b s → Clean s) (hfails : ¬ Event.Safe (.read target false))
    (hnone : Keeps (fun s => ¬ Clean s) (next none)) :
    wp (fileRead host target request seek offset size >>= next) Q (fun _ => Clean) s ↔
      Served host target request s.pos offset size ∧
        wp (next (some ⟨host.memory target request (host.filled s.pos offset size), 0⟩)) Q
          (fun _ => Clean)
          ⟨seekTo s.pos offset + size.toNat, s.trace ++ [.read target true], s.vars⟩ := by
  rw [wp_bind, wp_of_eq (fileRead_apply host target request hseek size s)]
  by_cases hserved : Served host target request s.pos offset size
  · rw [hserved.transfer]
    exact (and_iff_right hserved).symm
  · obtain ⟨hnull, hreport⟩ := transfer_unserved hserved
    rw [hnull]
    refine iff_of_false ?_ fun h => hserved h.1
    apply not_wp_of_keeps hnone hQ
    intro hclean
    exact hfails ((clean_append.mp hclean).2 _ hreport)

theorem wp_checked_iff {next : Int → Exec (Proc γ) β} (hs : Clean s) {i : Int} :
    wp (lift (checked i) >>= next) Q (fun _ => Clean) s ↔
      (-2 ^ 31 ≤ i ∧ i < 2 ^ 31 → wp (next i) Q (fun _ => Clean) s) := by
  rw [wp_lift_bind_iff hs]
  constructor
  · intro h hi
    exact h i (checked_of_range hi.1 hi.2)
  · intro h j hj
    obtain ⟨rfl, hi⟩ := checked_eq_ok hj
    exact h hi

theorem wp_get_iff {next : Nat → Exec (Proc γ) β} (hs : Clean s) {src : List UInt8} {p : Ptr}
    {n : Nat} (hp : Holds src p n) {f : Field} :
    wp (lift (p.get f) >>= next) Q (fun _ => Clean) s ↔
      (f.off + f.width ≤ n → wp (next (fieldAt src p.position f)) Q (fun _ => Clean) s) := by
  rw [wp_lift_bind_iff hs]
  constructor
  · intro h hin
    exact h _ (hp.get_iff.mpr ⟨hin, rfl⟩)
  · intro h i hi
    obtain ⟨hin, rfl⟩ := hp.get_iff.mp hi
    exact h hin

end

end PerfTools.Elf
