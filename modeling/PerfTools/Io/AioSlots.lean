import Mathlib.Data.Multiset.Range
import PerfTools.Io.Aio

/-!
# Slots and completions

In io_queue every slot has one request in flight whenever the loop waits, and the counter is the
number of completions; in io_test the counter is the number of completions of the batch. The
counter of io_queue is an int, which bounds the count it can reach.
-/

namespace PerfTools.Io

open Memory Exec

/-- A submission of distinct requests none of which is outstanding. -/
def Call.Fresh : Call → Prop
  | .submit slots pending => slots.Nodup ∧ ∀ i ∈ slots, i ∉ pending
  | _ => True

/-- No request was ever submitted while it was outstanding. -/
def Kernel.NeverTwice (k : Kernel) : Prop := ∀ c ∈ k.calls, c.Fresh

/-- Each slot has exactly one request outstanding. -/
def Kernel.EachOnce (o : Options) (k : Kernel) : Prop := k.pending = Multiset.range o.depth.toNat

/-- What io_queue guarantees between two rounds and behind its loop. -/
def QueueLaw (o : Options) (x : Status × QueueVars) : Prop :=
  x.2.kernel.EachOnce o ∧ x.2.done = x.2.kernel.received ∧ x.2.kernel.NeverTwice ∧
    match x.1 with
    | .waiting => x.2.kernel.received = 0 ∨ x.2.done < o.count
    | .left => o.count ≤ x.2.done ∧ x.2.done < max o.count 1 + o.depth
    | .stopped _ => False

/-- What io_test guarantees between two rounds and behind its loops: the counter is the number
of completions of the batch, which goes on as long as one is missing. -/
def BatchLaw (o : Options) (x : Status × BatchVars) : Prop :=
  x.2.kernel.NeverTwice ∧
    if x.1 = .waiting then
      x.2.kernel.pending ≤ Multiset.range o.depth.toNat ∧ x.2.kernel.pending ≠ 0 ∧
        x.2.totalReturn + x.2.kernel.pending.card = o.depth
    else x.2.kernel.pending = 0

namespace Kernel

variable {k : Kernel}

theorem NeverTwice.record (h : k.NeverTwice) {c : Call} (hc : c.Fresh) :
    (k.record c).NeverTwice := by
  intro c' hc'
  rcases List.mem_append.mp hc' with hold | hnew
  · exact h c' hold
  · rw [List.mem_singleton.mp hnew]
    exact hc

theorem NeverTwice.harvest (h : k.NeverTwice) (a : Answer) : (k.harvest a).NeverTwice := by
  cases a <;> exact h

theorem NeverTwice.submit (h : k.NeverTwice) {slots : List Nat}
    (hnodup : (k.pending + slots).Nodup) : (k.submit slots).NeverTwice := by
  obtain ⟨-, hslots, hdisjoint⟩ := Multiset.nodup_add.mp hnodup
  intro c hc
  rcases List.mem_append.mp hc with hold | hnew
  · exact h c hold
  · rw [List.mem_singleton.mp hnew]
    exact ⟨hslots, fun i hi => Multiset.disjoint_right.mp hdisjoint hi⟩

end Kernel

/-! ## The requests -/

theorem prepare_request {o : Options} {data : Nat → Nat} {offset : Nat → Except Fault Int} {n i : Nat}
    {ios ios' : List Iocb} (h : prepare o data offset n i ios = .ok ios')
    (hlen : ios.length = maxDepth) :
    (∀ j, i ≤ j → j < i + n → j < maxDepth ∧ ∃ off, offset j = .ok off ∧
      ios'[j]? = some ⟨data j, o.write, (o.bs % 2 ^ 64).toNat, off⟩) ∧
      ∀ j < i, ios'[j]? = ios[j]? := by
  induction n generalizing i ios with
  | zero =>
    obtain rfl := Except.ok.inj h
    exact ⟨fun j hj hlt => absurd hlt (by omega), fun j _ => rfl⟩
  | succ n ih =>
    rw [prepare] at h
    split_ifs at h with hmax
    cases hoff : offset i with
    | error e => simp [hoff] at h
    | ok off =>
      rw [hoff, ok_bind] at h
      obtain ⟨hset, hkept⟩ := ih h (by rw [List.length_set, hlen])
      constructor
      · intro j hj hlt
        rcases Nat.eq_or_lt_of_le hj with rfl | hj
        · refine ⟨by omega, off, hoff, ?_⟩
          rw [hkept i (by omega), List.getElem?_set_self (by omega)]
        · exact hset j hj (by omega)
      · intro j hj
        rw [hkept j (by omega), List.getElem?_set_ne (by omega)]

theorem prepare_data {o : Options} {data : Nat → Nat} {offset : Nat → Except Fault Int} {n i : Nat}
    {ios ios' : List Iocb} (h : prepare o data offset n i ios = .ok ios')
    (hlen : ios.length = maxDepth) {j : Nat} (hj : i ≤ j) (hlt : j < i + n) :
    ios'[j]?.map Iocb.data = some (data j) := by
  obtain ⟨-, off, -, hrequest⟩ := (prepare_request h hlen).1 j hj hlt
  rw [hrequest]
  rfl

theorem prepare_ok (o : Options) (data : Nat → Nat) {offset : Nat → Except Fault Int} {n i : Nat}
    (ios : List Iocb) (hn : i + n ≤ maxDepth)
    (hoffset : ∀ j, i ≤ j → j < i + n → ∃ off, offset j = .ok off) :
    ∃ ios', prepare o data offset n i ios = .ok ios' := by
  induction n generalizing i ios with
  | zero => exact ⟨ios, rfl⟩
  | succ n ih =>
    obtain ⟨off, hoff⟩ := hoffset i le_rfl (by omega)
    rw [prepare, if_neg (by omega), hoff, ok_bind]
    exact ih _ (by omega) fun j hj hlt => hoffset j (by omega) (by omega)

/-! ## io_queue -/

/-- The data of a request of io_queue is its slot. -/
def Kernel.Numbered (o : Options) (k : Kernel) : Prop :=
  ∀ j < o.depth.toNat, k.ios[j]?.map Iocb.data = some j

theorem Kernel.Numbered.eventData {o : Options} {k : Kernel} (h : k.Numbered o) {slots : List Nat}
    (hslots : ∀ j ∈ slots, j < o.depth.toNat) : k.eventData (.events slots) = slots := by
  have hdata : ∀ j ∈ slots, k.ios[j]?.map Iocb.data = some j := fun j hj => h j (hslots j hj)
  rw [Kernel.eventData, List.filterMap_congr hdata, List.filterMap_some]

@[simp] theorem wp_onKernel {f : Kernel → Kernel} {Q : Unit → QueueVars → Prop}
    {E : Stop → QueueVars → Prop} {v : QueueVars} :
    wp (onKernel f) Q E v ↔ Q () { v with kernel := f v.kernel } := Iff.rfl

theorem resubmit_spec {o : Options} (hdepth : o.depth.toNat ≤ maxDepth) {slots : List Nat}
    {v : QueueVars} (hslots : v.kernel.pending + slots = Multiset.range o.depth.toNat)
    (hfresh : v.kernel.NeverTwice) :
    wp (resubmit slots) (fun _ w => w.kernel.EachOnce o ∧ w.kernel.NeverTwice ∧
      w.kernel.ios = v.kernel.ios ∧ w.kernel.received = v.kernel.received ∧ w.done = v.done)
      (fun _ _ => False) v := by
  induction slots generalizing v with
  | nil => exact ⟨(Multiset.add_zero _).symm.trans hslots, hfresh, rfl, rfl, rfl⟩
  | cons index rest ih =>
    have hsplit : v.kernel.pending + ↑(index :: rest) = v.kernel.pending + ↑[index] + ↑rest := by
      rw [Multiset.add_assoc, Multiset.coe_add]
      rfl
    rw [hsplit] at hslots
    have hnodup : (v.kernel.pending + ↑[index]).Nodup := by
      have hrange := Multiset.nodup_range o.depth.toNat
      rw [← hslots] at hrange
      exact (Multiset.nodup_add.mp hrange).1
    have hindex : index < o.depth.toNat := by
      rw [← Multiset.mem_range, ← hslots]
      simp
    rw [resubmit, if_neg (by omega), wp_bind, wp_onKernel]
    exact ih hslots (hfresh.submit hnodup)

theorem queueRound_spec {o : Options} (hdepth : 1 ≤ o.depth ∧ o.depth ≤ maxDepth) {v : QueueVars}
    (hlaw : QueueLaw o (.waiting, v)) (hnumbered : v.kernel.Numbered o) {slots : List Nat}
    (ha : v.kernel.MayReturn false o.depth (.events slots))
    (hroom : v.done + slots.length < 2 ^ 31) :
    wp (queueRound o (.events slots)) (fun more w =>
      (QueueLaw o (if more then .waiting else .left, w) ∧ w.kernel.Numbered o) ∧
        w.done = v.done + slots.length) (fun _ _ => False) v := by
  obtain ⟨hpending, hdone, hfresh, hwaiting⟩ := hlaw
  obtain ⟨slots', heq, hlen, hsub, hsome⟩ := ha
  obtain rfl : slots = slots' := Answer.events.inj heq
  dsimp only at hpending hdone hfresh hwaiting
  have hpos : 0 < slots.length := List.length_pos_iff.mpr (hsome rfl)
  have hslots : ∀ j ∈ slots, j < o.depth.toNat := by
    intro j hj
    rw [← Multiset.mem_range, ← hpending]
    exact Multiset.mem_of_le hsub hj
  have hback : v.kernel.pending - slots + slots = Multiset.range o.depth.toNat := by
    rw [Multiset.sub_add_cancel hsub, hpending]
  have hlow : v.done < max o.count 1 := by
    rcases hwaiting with hnone | hless <;> omega
  have hvalue : (Answer.events slots).value = slots.length := rfl
  have htotal : checked (v.done + (Answer.events slots).value) =
      .ok (v.done + (Answer.events slots).value) := checked_of_range (by omega) (by omega)
  unfold queueRound
  simp only [wp_bind, wp_get, wp_onKernel]
  rw [wp_runIf]
  refine ⟨fun hneg => absurd hneg (by omega), fun _ => ?_⟩
  rw [if_neg (by omega)]
  simp only [wp_bind, wp_get, wp_modify, htotal, wp_lift_ok,
    hnumbered.eventData hslots]
  have hdepth' : o.depth.toNat ≤ maxDepth := by omega
  have hfresh' : (Kernel.harvest (.events slots)
      (Kernel.record (.getevents 1 o.depth) v.kernel)).NeverTwice :=
    (hfresh.record (c := .getevents 1 o.depth) trivial).harvest (.events slots)
  refine wp_mono (resubmit_spec hdepth' hback hfresh') ?_ fun _ _ => id
  rintro - w ⟨heach, hnever, hios, hreceived, htotal'⟩
  have hcounted : w.done = w.kernel.received := by
    rw [htotal', hreceived, hvalue, hdone]
    simp only [Kernel.harvest, Kernel.record, Nat.cast_add]
  have hnumbered' : w.kernel.Numbered o := by
    intro j hj
    rw [hios]
    exact hnumbered j hj
  dsimp only at htotal'
  refine ⟨⟨⟨heach, hcounted, hnever, ?_⟩, hnumbered'⟩, htotal'⟩
  by_cases hmore : o.count ≤ v.done + (Answer.events slots).value
  · simp only [hmore, decide_true, Bool.not_true, Bool.false_eq_true, if_false]
    omega
  · simp only [hmore, decide_false, Bool.not_false, if_true]
    omega

theorem queueSetup_spec {o : Options} (hdepth : 1 ≤ o.depth ∧ o.depth ≤ maxDepth) {v : QueueVars}
    (h : queueSetup o = .ok v) : QueueLaw o (.waiting, v) ∧ v.kernel.Numbered o := by
  unfold queueSetup at h
  cases hios : prepare o id (fun i => .ok (toInt64 ((o.bs % 2 ^ 64).toNat * i)))
      (o.depth % 2 ^ 64).toNat 0 zeroIos with
  | error e =>
    rw [hios] at h
    cases h
  | ok ios =>
    rw [hios] at h
    obtain rfl := Except.ok.inj h
    have hmax : maxDepth = 1024 := rfl
    have hnone : (⟨ios, 0, 0, []⟩ : Kernel).NeverTwice := fun c hc => absurd hc List.not_mem_nil
    have hnodup : ((0 : Multiset Nat) + ↑(allSlots o)).Nodup := by
      rw [Multiset.zero_add]
      exact Multiset.nodup_range _
    constructor
    · exact ⟨Multiset.zero_add _, rfl, hnone.submit hnodup, Or.inl rfl⟩
    · intro j hj
      exact prepare_data hios List.length_replicate (Nat.zero_le j) (by omega)

theorem queueMachine_law {o : Options} (hdepth : 1 ≤ o.depth ∧ o.depth ≤ maxDepth)
    (hcount : o.count + o.depth ≤ 2 ^ 31) {x : Status × QueueVars}
    (hx : (queueMachine o).Reached x) : QueueLaw o x := by
  have hmax : maxDepth = 1024 := rfl
  have hinv : QueueLaw o x ∧ x.2.kernel.Numbered o := by
    refine Machine.invariant (I := fun x => QueueLaw o x ∧ x.2.kernel.Numbered o)
      (fun v hv => queueSetup_spec hdepth hv) (fun a v hv ha => ?_) hx
    obtain ⟨slots, rfl, hlen, -⟩ := id ha
    obtain ⟨⟨-, hdone, -, hwaiting⟩, hnumbered⟩ := id hv
    dsimp only at hdone hwaiting
    have hroom : v.done + slots.length < 2 ^ 31 := by
      rcases hwaiting with hnone | hless <;> omega
    refine wp_mono (queueRound_spec hdepth hv.1 hnumbered ha hroom) (fun more w hw => hw.1) ?_
    intro e w hfalse
    exact hfalse.elim
  exact hinv.1

theorem queueSetup_ok {o : Options} (hdepth : 1 ≤ o.depth ∧ o.depth ≤ maxDepth) :
    ∃ v, queueSetup o = .ok v ∧ v.done = 0 := by
  have hmax : maxDepth = 1024 := rfl
  obtain ⟨ios, hios⟩ := prepare_ok o id zeroIos
    (show 0 + (o.depth % 2 ^ 64).toNat ≤ maxDepth by omega)
    fun i _ _ => ⟨toInt64 ((o.bs % 2 ^ 64).toNat * i), rfl⟩
  refine ⟨⟨Kernel.submit (allSlots o) ⟨ios, 0, 0, []⟩, 0⟩, ?_, rfl⟩
  rw [queueSetup, hios]
  rfl

/-! ### The counter runs over -/

/-- With single harvests the loop waits for as long as the counter is below the count. -/
private theorem queue_singles {o : Options} (hdepth : 1 ≤ o.depth ∧ o.depth ≤ maxDepth) {m : Nat}
    (hm : (m : Int) < o.count) (hint : m < 2 ^ 31) :
    ∃ v, (queueMachine o).Reached (.waiting, v) ∧ QueueLaw o (.waiting, v) ∧
      v.kernel.Numbered o ∧ v.done = m := by
  induction m with
  | zero =>
    obtain ⟨v, hsetup, hdone⟩ := queueSetup_ok hdepth
    obtain ⟨hlaw, hnumbered⟩ := queueSetup_spec hdepth hsetup
    exact ⟨v, Machine.reached_start hsetup, hlaw, hnumbered, hdone⟩
  | succ m ih =>
    obtain ⟨v, hreached, hlaw, hnumbered, hdone⟩ := ih (by omega) (by omega)
    have hone : v.kernel.MayReturn false o.depth (.events [0]) := by
      refine ⟨[0], rfl, by simpa using hdepth.1, ?_, fun _ => List.cons_ne_nil 0 []⟩
      rw [hlaw.1]
      exact Multiset.singleton_le.mpr (Multiset.mem_range.mpr (by omega))
    have hroom : v.done + [0].length < 2 ^ 31 := by
      rw [hdone, List.length_singleton]
      omega
    obtain ⟨more, w, hrun, ⟨hlaw', hnumbered'⟩, hdone'⟩ :=
      returns_of_wp (queueRound_spec hdepth hlaw hnumbered hone hroom)
    have hcounted : w.done = (m + 1 : Nat) := by
      rw [hdone', hdone, List.length_singleton]
      rfl
    cases more with
    | false =>
      obtain ⟨-, -, -, hleft, -⟩ := hlaw'
      dsimp only at hleft
      omega
    | true =>
      have hreached' := Machine.reached_next hreached hone
      rw [Machine.next_eq hrun, if_pos rfl] at hreached'
      exact ⟨w, hreached', hlaw', hnumbered', hcounted⟩

private theorem queueRound_overflow {o : Options} {v : QueueVars} {slots : List Nat}
    (hroom : 2 ^ 31 ≤ v.done + slots.length) (hsome : slots ≠ []) :
    wp (queueRound o (.events slots)) (fun _ _ => False) (fun e _ => e = .fault .overflow) v := by
  have hlen : 0 < slots.length := List.length_pos_iff.mpr hsome
  have hvalue : (Answer.events slots).value = slots.length := rfl
  have hfull : checked (v.done + (Answer.events slots).value) = .error .overflow :=
    checked_overflow (by omega)
  unfold queueRound
  simp only [wp_bind, wp_get, wp_onKernel]
  rw [wp_runIf]
  refine ⟨fun hneg => absurd hneg (by omega), fun _ => ?_⟩
  rw [if_neg (by omega)]
  simp only [wp_bind, wp_get, hfull, wp_lift_error]

private theorem queue_overflow {o : Options} (hdepth : 1 ≤ o.depth ∧ o.depth ≤ maxDepth)
    (hcount : 2 ^ 31 < o.count + o.depth) :
    ∃ x, (queueMachine o).Reached x ∧ ¬ QueueLaw o x := by
  have hmax : maxDepth = 1024 := rfl
  obtain ⟨v, hreached, hlaw, -, hdone⟩ := queue_singles hdepth
    (m := 2 ^ 31 - o.depth.toNat) (by omega) (by omega)
  have hall : v.kernel.MayReturn false o.depth (.events (List.range o.depth.toNat)) := by
    refine ⟨_, rfl, ?_, ?_, fun _ hnil => ?_⟩
    · rw [List.length_range]
      omega
    · rw [hlaw.1]
      exact le_refl _
    · have hlen := congrArg List.length hnil
      rw [List.length_range, List.length_nil] at hlen
      omega
  refine ⟨_, Machine.reached_next hreached hall, ?_⟩
  have hstop : ¬ QueueLaw o ((queueMachine o).next (.events (List.range o.depth.toNat)) v) := by
    apply Machine.next_of_wp (I := fun x => ¬ QueueLaw o x)
    refine wp_mono (queueRound_overflow ?_ ?_) (fun _ _ h => h.elim) ?_
    · rw [List.length_range]
      omega
    · intro hnil
      have hlen := congrArg List.length hnil
      rw [List.length_range, List.length_nil] at hlen
      omega
    · rintro e w rfl ⟨-, -, -, hfalse⟩
      exact hfalse
  exact hstop

/-! ## io_test -/

@[simp] theorem wp_onBatchKernel {f : Kernel → Kernel} {Q : Unit → BatchVars → Prop}
    {E : Stop → BatchVars → Prop} {v : BatchVars} :
    wp (onBatchKernel f) Q E v ↔ Q () { v with kernel := f v.kernel } := Iff.rfl

theorem nextBatch_spec {o : Options} (hdepth : 1 ≤ o.depth) {v : BatchVars}
    (hnone : v.kernel.pending = 0) (hfresh : v.kernel.NeverTwice) :
    wp (nextBatch o) (fun more w => BatchLaw o (if more then .waiting else .left, w))
      (fun e w => BatchLaw o (.stopped e, w)) v := by
  unfold nextBatch
  rw [wp_bind, wp_get, wp_bind, wp_lift]
  refine ⟨fun loops _ => ?_, fun e _ => ⟨hfresh, hnone⟩⟩
  rw [wp_bind, wp_modify, wp_ite]
  constructor
  · intro _
    have hfull : v.kernel.pending + ↑(allSlots o) = Multiset.range o.depth.toNat := by
      rw [hnone]
      exact Multiset.zero_add _
    have hnodup : (v.kernel.pending + ↑(allSlots o)).Nodup := by
      rw [hfull]
      exact Multiset.nodup_range _
    have hcard : (v.kernel.pending + ↑(allSlots o)).card = o.depth.toNat := by
      rw [hfull, Multiset.card_range]
    simp only [wp_bind, wp_onBatchKernel, wp_modify, wp_pure]
    refine ⟨hfresh.submit hnodup, hfull.le, ?_, ?_⟩
    · intro hzero
      have hzero' : (v.kernel.pending + ↑(allSlots o)).card = 0 := Multiset.card_eq_zero.mpr hzero
      omega
    · change (0 : Int) + ((v.kernel.pending + ↑(allSlots o)).card : Nat) = o.depth
      omega
  · intro _
    exact ⟨hfresh, hnone⟩

/-- The first batch is submitted when the requests can be described and there is a count. -/
theorem testMachine_start {o : Options} (buf : Nat → Nat) (hdepth : o.depth ≤ maxDepth)
    (hbs : 0 ≤ o.bs) (hsize : o.bs * o.depth < 2 ^ 31) (hcount : 0 < o.count) :
    ∃ v, (testMachine o buf).start v := by
  obtain ⟨ios, hios⟩ : ∃ ios, batchIos o buf = .ok ios := by
    refine prepare_ok o buf zeroIos (by omega) fun j _ hj => ⟨o.bs * j, ?_⟩
    have hle : o.bs * j ≤ o.bs * o.depth := Int.mul_le_mul_of_nonneg_left (by omega) hbs
    have hnonneg : 0 ≤ o.bs * j := Int.mul_nonneg hbs (Int.natCast_nonneg j)
    exact checked_of_range (by omega) (by omega)
  have hbatch : wp (nextBatch o) (fun more _ => more = true) (fun _ _ => False)
      ⟨⟨ios, 0, 0, []⟩, 0, 0⟩ := by
    have hloops : checked ((0 : Int) + 1) = .ok 1 := checked_of_range (by decide) (by decide)
    unfold nextBatch
    simp only [wp_bind, wp_get, hloops, wp_lift_ok, wp_modify]
    rw [if_pos hcount]
    rfl
  obtain ⟨_, v, hrun, rfl⟩ := returns_of_wp hbatch
  exact ⟨v, ios, hios, hrun⟩

private theorem sub_eq_zero_iff {s t : Multiset Nat} (h : s ≤ t) : t - s = 0 ↔ s = t := by
  constructor
  · intro hzero
    have hback := Multiset.sub_add_cancel h
    rwa [hzero, Multiset.zero_add] at hback
  · rintro rfl
    have hself := Multiset.card_sub (le_refl s)
    exact Multiset.card_eq_zero.mp (by omega)

/-- One harvest of io_test: the batch goes on exactly when a completion is missing. -/
theorem batchRound_spec {o : Options} (hdepth : 1 ≤ o.depth ∧ o.depth ≤ maxDepth) {v : BatchVars}
    (hlaw : BatchLaw o (.waiting, v)) {slots : List Nat}
    (ha : v.kernel.MayReturn true o.depth (.events slots)) :
    wp (batchRound o (.events slots)) (fun more w => (more = true ↔ ↑slots ≠ v.kernel.pending) ∧
      if more then BatchLaw o (.waiting, w) else w.kernel.pending = 0 ∧ w.kernel.NeverTwice)
      (fun _ _ => False) v := by
  obtain ⟨hfresh, hsome, hne, htotal⟩ := hlaw
  dsimp only at hfresh hsome hne htotal
  obtain ⟨slots', heq, hlen, hsub, -⟩ := ha
  obtain rfl : slots = slots' := Answer.events.inj heq
  have hmax : maxDepth = 1024 := rfl
  have hvalue : (Answer.events slots).value = slots.length := rfl
  have hcard : (v.kernel.pending - ↑slots).card + slots.length = v.kernel.pending.card := by
    rw [Multiset.card_sub hsub, Multiset.coe_card]
    have hle := Multiset.card_le_card hsub
    rw [Multiset.coe_card] at hle
    omega
  have hfew : v.kernel.pending.card ≤ o.depth.toNat := by
    rw [← Multiset.card_range o.depth.toNat]
    exact Multiset.card_le_card hsome
  have hchecked : checked (v.totalReturn + (Answer.events slots).value) =
      .ok (v.totalReturn + (Answer.events slots).value) := checked_of_range (by omega) (by omega)
  have hfresh' : (Kernel.harvest (.events slots)
      (Kernel.record (.getevents o.depth o.depth) v.kernel)).NeverTwice :=
    (hfresh.record (c := .getevents o.depth o.depth) trivial).harvest (.events slots)
  have hsome' : v.kernel.pending - ↑slots ≤ Multiset.range o.depth.toNat :=
    (Multiset.sub_le_self _ _).trans hsome
  have hdone : v.kernel.pending - ↑slots = 0 ↔ (v.kernel.pending - ↑slots).card = 0 :=
    Multiset.card_eq_zero.symm
  unfold batchRound
  simp only [wp_bind, wp_onBatchKernel]
  rw [wp_runIf]
  refine ⟨fun hneg => absurd hneg (by omega), fun _ => ?_⟩
  rw [wp_ite]
  constructor
  · intro hzero
    obtain rfl : slots = [] := List.length_eq_zero_iff.mp (by omega)
    have hkept : v.kernel.pending - ↑([] : List Nat) = v.kernel.pending := Multiset.sub_zero _
    rw [wp_pure]
    refine ⟨iff_of_true rfl fun h => hne h.symm, hfresh', hsome', fun h => ?_, ?_⟩
    · exact hne (hkept.symm.trans h)
    · change v.totalReturn + ((v.kernel.pending - ↑([] : List Nat)).card : Nat) = o.depth
      rw [hkept, htotal]
  · intro _
    simp only [wp_bind, wp_get, hchecked, wp_lift_ok, wp_modify, wp_pure]
    rw [Ne, ← sub_eq_zero_iff hsub, hdone]
    by_cases hmore : o.depth ≤ v.totalReturn + (Answer.events slots).value
    · have hzero : (v.kernel.pending - ↑slots).card = 0 := by omega
      simp only [hmore, decide_true, Bool.not_true, Bool.false_eq_true, if_false, hzero,
        not_true_eq_false]
      exact ⟨trivial, hdone.mpr hzero, hfresh'⟩
    · have hpos : (v.kernel.pending - ↑slots).card ≠ 0 := by omega
      simp only [hmore, decide_false, Bool.not_false, if_true, hpos, not_false_eq_true]
      refine ⟨trivial, hfresh', hsome', fun h => hpos (hdone.mp h), ?_⟩
      change v.totalReturn + (Answer.events slots).value +
        ((v.kernel.pending - ↑slots).card : Nat) = o.depth
      omega

theorem testMachine_law {o : Options} {buf : Nat → Nat} (hdepth : 1 ≤ o.depth ∧ o.depth ≤ maxDepth)
    {x : Status × BatchVars} (hx : (testMachine o buf).Reached x) : BatchLaw o x := by
  refine Machine.invariant (I := BatchLaw o) ?_ ?_ hx
  · rintro v ⟨ios, -, hstart⟩
    have hnone : (⟨ios, 0, 0, []⟩ : Kernel).NeverTwice := fun c hc => absurd hc List.not_mem_nil
    have hspec := nextBatch_spec (v := ⟨⟨ios, 0, 0, []⟩, 0, 0⟩) hdepth.1 rfl hnone
    exact (wp_of_eq hstart).mp hspec
  · rintro a v hlaw ha
    obtain ⟨slots, rfl, -⟩ := id ha
    change wp (testRound o (.events slots)) _ _ v
    unfold testRound
    rw [wp_bind]
    refine wp_mono (batchRound_spec hdepth hlaw ha) ?_ fun _ _ h => h.elim
    rintro more w ⟨-, hw⟩
    cases more with
    | true => exact hw
    | false => exact nextBatch_spec hdepth.1 hw.1 hw.2

/-- The slots and the counters of both tools are in order in every state exactly when the counter
of io_queue can hold the count and one harvest more. -/
theorem aioSlots_iff {o : Options} {buf : Nat → Nat} (hdepth : 1 ≤ o.depth ∧ o.depth ≤ 1024) :
    ((∀ x, (queueMachine o).Reached x → QueueLaw o x) ∧
      (∀ x, (testMachine o buf).Reached x → BatchLaw o x) ∧
      ∀ v slots, (testMachine o buf).Reached (.waiting, v) →
        v.kernel.MayReturn true o.depth (.events slots) →
        ((batchRound o (.events slots) v).1 = .ok false ↔ ↑slots = v.kernel.pending)) ↔
      o.count + o.depth ≤ 2 ^ 31 := by
  constructor
  · rintro ⟨hqueue, -⟩
    by_contra hcount
    obtain ⟨x, hx, hnot⟩ := queue_overflow hdepth (by omega)
    exact hnot (hqueue x hx)
  · intro hcount
    refine ⟨fun x hx => queueMachine_law hdepth hcount hx, fun x hx => testMachine_law hdepth hx, ?_⟩
    intro v slots hv ha
    obtain ⟨more, w, hrun, hmore, -⟩ :=
      returns_of_wp (batchRound_spec hdepth (testMachine_law hdepth hv) ha)
    rw [hrun]
    cases more with
    | false => exact iff_of_true rfl (by simpa using hmore)
    | true => exact iff_of_false (by simp) (hmore.mp rfl)

/-- Two requests in flight and the largest count: the last harvest of both runs the counter
over. -/
theorem largestCount_overflows :
    ¬ ∀ x, (queueMachine ⟨false, 4096, 2 ^ 31 - 1, 2⟩).Reached x →
      QueueLaw ⟨false, 4096, 2 ^ 31 - 1, 2⟩ x := by
  intro hlaw
  obtain ⟨x, hx, hnot⟩ := queue_overflow (o := ⟨false, 4096, 2 ^ 31 - 1, 2⟩)
    (by decide) (by decide)
  exact hnot (hlaw x hx)

def fourRequests : Options := ⟨true, 512, 10, 4⟩

theorem aioSlots_iff_fourRequests :
    ((∀ x, (queueMachine fourRequests).Reached x → QueueLaw fourRequests x) ∧
      ∃ v, (queueMachine fourRequests).Reached (.waiting, v)) ∧
    (∀ x, (testMachine fourRequests fun i => 512 * i).Reached x → BatchLaw fourRequests x) ∧
      ∃ v, (testMachine fourRequests fun i => 512 * i).Reached (.waiting, v) := by
  obtain ⟨hqueue, htest, -⟩ :=
    (@aioSlots_iff fourRequests (fun i => 512 * i) (by decide)).mpr (by decide)
  obtain ⟨v, hv, -⟩ := queueSetup_ok (o := fourRequests) (by decide)
  obtain ⟨w, hw⟩ := testMachine_start (o := fourRequests) (fun i => 512 * i) (by decide) (by decide)
    (by decide) (by decide)
  exact ⟨⟨hqueue, v, Machine.reached_start hv⟩, htest, w, Machine.reached_start hw⟩

end PerfTools.Io
