import PerfTools.Io.AioSlots

/-!
# Errors of io_getevents

Both tools close the file and destroy the context when io_getevents fails, and then go on with
the rest of the round: the negative result is added to the counter, and the loop asks the
destroyed context again. As long as no call fails, the counters are right and nothing is closed
before the loop is left.
-/

namespace PerfTools.Io

open Memory Exec

/-- The second call can be made after the first one: the context is gone after io_destroy, the
file after close. -/
def Call.Allows : Call → Call → Prop
  | .destroy, c => match c with
    | .close => True
    | _ => False
  | .close, c => match c with
    | .destroy | .getevents .. => True
    | _ => False
  | _, _ => True

/-- The calls of a run, with the two behind the loop. -/
def Kernel.history (k : Kernel) (st : Status) : List Call :=
  k.calls ++ if st = .left then [.close, .destroy] else []

/-- The counter is the number of completions received after the first ones, and no call is made
on what has been destroyed or closed. -/
structure Sound (st : Status) (k : Kernel) (counter : Int) (before : Nat) : Prop where
  counted : counter = k.received - before
  live : (k.history st).Pairwise Call.Allows

/-- io_getevents fails, or it returns as MayReturn says. -/
def Kernel.MayAnswer (k : Kernel) (timed : Bool) (nr : Int) (a : Answer) : Prop :=
  (∃ n, a = .error n ∧ -2 ^ 31 ≤ n ∧ n < 0) ∨ k.MayReturn timed nr a

/-! ## io_queue -/

def queueWithErrors (o : Options) : Machine Answer QueueVars where
  start v := queueSetup o = .ok v
  allowed v a := v.kernel.MayAnswer false o.depth a
  round := queueRound o

def QueueSound (x : Status × QueueVars) : Prop := Sound x.1 x.2.kernel x.2.done 0

/-- The call has not failed, and done has room for its result. -/
def QueueServed (v : QueueVars) (a : Answer) : Prop := 0 ≤ a.value ∧ v.done + a.value < 2 ^ 31

/-! ## io_test -/

/-- The variables of io_test with the number of completions of the batches before the current
one, which the program does not have. -/
structure BatchRun where
  vars : BatchVars
  before : Nat

/-- A round, after which a batch that has begun starts to count. -/
def countedRound (o : Options) (a : Answer) : Exec BatchRun Bool := fun r =>
  match testRound o a r.vars with
  | (.ok true, w) =>
    (.ok true, ⟨w, if w.loops = r.vars.loops then r.before else w.kernel.received⟩)
  | (res, w) => (res, ⟨w, r.before⟩)

def testWithErrors (o : Options) (buf : Nat → Nat) : Machine Answer BatchRun where
  start r := (∃ ios, batchIos o buf = .ok ios ∧
    nextBatch o ⟨⟨ios, 0, 0, []⟩, 0, 0⟩ = (.ok true, r.vars)) ∧ r.before = 0
  allowed r a := r.vars.kernel.MayAnswer true o.depth a
  round := countedRound o

def TestSound (x : Status × BatchRun) : Prop :=
  Sound x.1 x.2.vars.kernel x.2.vars.totalReturn x.2.before

/-- A call has been handled: after a failed one the loop is left. -/
def Handled {σ : Type} (M : Machine Answer σ) (law : Status × σ → Prop) (v : σ) (a : Answer) :
    Prop :=
  law (M.next a v) ∧ (a.value < 0 → (M.next a v).1 = .left)

/-! ## Calls on what is open -/

/-- Neither the file nor the context has been closed. -/
def Call.KeepsOpen : Call → Prop
  | .close | .destroy => False
  | _ => True

def Kernel.Open (k : Kernel) : Prop := ∀ c ∈ k.calls, c.KeepsOpen

namespace Kernel

variable {k : Kernel}

theorem Open.record (h : k.Open) {c : Call} (hc : c.KeepsOpen) : (k.record c).Open := by
  intro c' hc'
  rcases List.mem_append.mp hc' with hold | hnew
  · exact h c' hold
  · rw [List.mem_singleton.mp hnew]
    exact hc

theorem Open.submit (h : k.Open) (slots : List Nat) : (k.submit slots).Open :=
  h.record (c := .submit slots k.pending) trivial

theorem Open.harvest (h : k.Open) (a : Answer) : (k.harvest a).Open := by
  cases a <;> exact h

/-- As long as nothing is closed before the end of the loop, every call may follow the others. -/
theorem Open.live (h : k.Open) (st : Status) : (k.history st).Pairwise Call.Allows := by
  have hany : ∀ c ∈ k.calls, ∀ c', c.Allows c' := by
    intro c hc c'
    have hopen := h c hc
    cases c with
    | submit slots pending => trivial
    | getevents minNr nr => trivial
    | close => exact hopen.elim
    | destroy => exact hopen.elim
  rw [history, List.pairwise_append]
  refine ⟨?_, ?_, fun c hc c' _ => hany c hc c'⟩
  · exact List.pairwise_of_forall_mem_list fun c hc c' _ => hany c hc c'
  · split_ifs
    · simp [Call.Allows]
    · exact List.Pairwise.nil

end Kernel

/-! ## Runs of io_queue -/

/-- The counter is right and nothing is closed. -/
def QueueGood (v : QueueVars) : Prop := v.done = v.kernel.received ∧ v.kernel.Open

theorem QueueGood.sound {v : QueueVars} (h : QueueGood v) (st : Status) : QueueSound (st, v) :=
  ⟨by rw [h.1]; simp, h.2.live st⟩

theorem keeps_resubmit (slots : List Nat) : Keeps QueueGood (resubmit slots) := by
  induction slots with
  | nil => exact Yields.pure trivial
  | cons index rest ih =>
    rw [resubmit]
    split_ifs
    · exact Yields.stop _
    · apply Keeps.bind _ fun _ => ih
      intro v hv
      rw [wp_onKernel]
      exact ⟨trivial, hv.1, hv.2.submit [index]⟩

theorem queueRound_good {o : Options} {v : QueueVars} (hv : QueueGood v) {slots : List Nat}
    (hroom : v.done + slots.length < 2 ^ 31) :
    wp (queueRound o (.events slots)) (fun _ => QueueGood) (fun _ => QueueGood) v := by
  obtain ⟨hdone, hopen⟩ := hv
  have hvalue : (Answer.events slots).value = slots.length := rfl
  have htotal : checked (v.done + (Answer.events slots).value) =
      .ok (v.done + (Answer.events slots).value) := checked_of_range (by omega) (by omega)
  have hopen' : (Kernel.harvest (.events slots)
      (Kernel.record (.getevents 1 o.depth) v.kernel)).Open :=
    (hopen.record (c := .getevents 1 o.depth) trivial).harvest _
  have hdone' : v.done + (Answer.events slots).value =
      ((Kernel.harvest (.events slots)
        (Kernel.record (.getevents 1 o.depth) v.kernel)).received : Int) := by
    rw [hdone, hvalue]
    exact (Nat.cast_add _ _).symm
  unfold queueRound
  simp only [wp_bind, wp_get, wp_onKernel]
  rw [wp_runIf]
  refine ⟨fun hneg => absurd hneg (by omega), fun _ => ?_⟩
  rw [wp_ite]
  constructor
  · intro hzero
    rw [wp_pure]
    exact ⟨by rw [← hdone', hzero, Int.add_zero], hopen'⟩
  · intro _
    simp only [wp_bind, wp_get, htotal, wp_lift_ok, wp_modify]
    exact wp_mono (keeps_resubmit _ _ ⟨hdone', hopen'⟩) (fun _ _ h => h.2) fun _ _ h => h

theorem queueRound_error {o : Options} {v : QueueVars} {n : Int} (hn : n < 0) :
    wp (queueRound o (.error n))
      (fun _ w => w.done = v.done + n ∧ w.kernel.received = v.kernel.received)
      (fun _ _ => v.done + n < -2 ^ 31 ∨ 2 ^ 31 ≤ v.done + n) v := by
  have hvalue : (Answer.error n).value = n := rfl
  unfold queueRound
  simp only [wp_bind, wp_get, wp_onKernel]
  rw [hvalue, wp_runIf]
  refine ⟨fun _ => ?_, fun hneg => absurd hn hneg⟩
  rw [wp_bind, wp_onKernel, wp_onKernel, if_neg (by omega), wp_bind, wp_get, wp_bind, wp_lift]
  refine ⟨fun total htotal => ⟨(checked_eq_ok htotal).1, rfl⟩, fun e herror => ?_⟩
  have hrange : ¬ (-2 ^ 31 ≤ v.done + n ∧ v.done + n < 2 ^ 31) := (checked_eq_error herror).2
  omega

theorem queueRound_full {o : Options} {v : QueueVars} {slots : List Nat}
    (hroom : 2 ^ 31 ≤ v.done + slots.length) (hsome : slots ≠ []) :
    wp (queueRound o (.events slots)) (fun _ _ => False)
      (fun _ w => w.done = v.done ∧ w.kernel.received = v.kernel.received + slots.length) v := by
  have hlen : 0 < slots.length := List.length_pos_iff.mpr hsome
  have hvalue : (Answer.events slots).value = slots.length := rfl
  have hfull : checked (v.done + (Answer.events slots).value) = .error .overflow :=
    checked_overflow (by omega)
  unfold queueRound
  simp only [wp_bind, wp_get, wp_onKernel]
  rw [wp_runIf]
  refine ⟨fun hneg => absurd hneg (by omega), fun _ => ?_⟩
  rw [if_neg (by omega)]
  simp only [wp_bind, wp_get, hfull, wp_lift_error]
  exact ⟨trivial, rfl⟩

theorem Kernel.MayAnswer.mayReturn {k : Kernel} {timed : Bool} {nr : Int} {a : Answer}
    (h : k.MayAnswer timed nr a) (ha : 0 ≤ a.value) : k.MayReturn timed nr a := by
  rcases h with ⟨n, rfl, -, hn⟩ | h
  · exact absurd ha (Int.not_le.mpr hn)
  · exact h

theorem queue_good {o : Options} {x : Status × QueueVars}
    (hx : ((queueWithErrors o).under QueueServed).Reached x) : QueueGood x.2 := by
  refine Machine.invariant (I := fun x => QueueGood x.2) (fun v hv => ?_)
    (fun a v hv ha => ?_) hx
  · change queueSetup o = .ok v at hv
    unfold queueSetup at hv
    cases hios : prepare o id (fun i => .ok (toInt64 ((o.bs % 2 ^ 64).toNat * i)))
        (o.depth % 2 ^ 64).toNat 0 zeroIos with
    | error e =>
      rw [hios] at hv
      cases hv
    | ok ios =>
      rw [hios] at hv
      obtain rfl := Except.ok.inj hv
      have hnone : (⟨ios, 0, 0, []⟩ : Kernel).Open := fun c hc => absurd hc List.not_mem_nil
      exact ⟨rfl, hnone.submit _⟩
  · obtain ⟨hallowed, hvalue, hroom⟩ := ha
    obtain ⟨slots, rfl, -⟩ := hallowed.mayReturn hvalue
    exact queueRound_good hv hroom

/-- Calls that fail and harvests that are too large are the ones io_queue does not handle. -/
theorem queue_handled {o : Options} {v : QueueVars} {a : Answer} (hv : QueueGood v)
    (ha : v.kernel.MayAnswer false o.depth a) :
    Handled (queueWithErrors o) QueueSound v a ↔ QueueServed v a := by
  constructor
  · rintro ⟨hsound, hleft⟩
    rcases ha with ⟨n, rfl, -, hn⟩ | ⟨slots, rfl, -, -, hsome⟩
    · exfalso
      have hwrong := Machine.next_of_wp (M := queueWithErrors o) (s := v) (a := .error n)
        (I := fun x => ¬ (QueueSound x ∧ x.1 = .left)) (wp_mono (queueRound_error hn) ?_ ?_)
      · exact hwrong ⟨hsound, hleft hn⟩
      · rintro more w ⟨hdone, hreceived⟩ ⟨hcounted, -⟩
        have heq := hcounted.counted
        rw [hdone, hreceived, hv.1] at heq
        omega
      · rintro e w - ⟨-, hstatus⟩
        cases hstatus
    · by_contra hnot
      have hvalue : (Answer.events slots).value = slots.length := rfl
      have hroom : 2 ^ 31 ≤ v.done + slots.length := by
        by_contra hroom
        exact hnot ⟨by omega, by omega⟩
      have hwrong := Machine.next_of_wp (M := queueWithErrors o) (s := v) (a := .events slots)
        (I := fun x => ¬ QueueSound x) (wp_mono (queueRound_full hroom (hsome rfl)) ?_ ?_)
      · exact hwrong hsound
      · exact fun _ _ hfalse => hfalse.elim
      · rintro e w ⟨hdone, hreceived⟩ hcounted
        have heq := hcounted.counted
        have hlen := List.length_pos_iff.mpr (hsome rfl)
        rw [hdone, hreceived, hv.1] at heq
        omega
  · rintro ⟨hvalue, hroom⟩
    refine ⟨?_, fun hneg => absurd hneg (by omega)⟩
    obtain ⟨slots, rfl, -⟩ := ha.mayReturn hvalue
    apply Machine.next_of_wp (I := QueueSound)
    exact wp_mono (queueRound_good hv hroom) (fun _ _ h => h.sound _) fun _ _ h => h.sound _

/-! ## Runs of io_test -/

/-- The counter is right and nothing is closed. -/
def TestGood (r : BatchRun) : Prop :=
  r.vars.totalReturn = r.vars.kernel.received - r.before ∧ r.vars.kernel.Open

/-- Every request of the batch has been counted or is in flight. -/
structure InBatch (o : Options) (v : BatchVars) : Prop where
  unclosed : v.kernel.Open
  total : v.totalReturn + v.kernel.pending.card = o.depth.toNat
  nonneg : 0 ≤ v.totalReturn

theorem InBatch.begun {o : Options} {v : BatchVars} (hopen : v.kernel.Open)
    (htotal : v.totalReturn = 0) (hcard : v.kernel.pending.card = o.depth.toNat) :
    InBatch o v :=
  ⟨hopen, by omega, by omega⟩

theorem TestGood.sound {r : BatchRun} (h : TestGood r) (st : Status) : TestSound (st, r) :=
  ⟨h.1, h.2.live st⟩

theorem batchRound_counts {o : Options} (hdepth : o.depth < 2 ^ 31) {v : BatchVars}
    (hv : InBatch o v) {slots : List Nat} (ha : v.kernel.MayReturn true o.depth (.events slots)) :
    wp (batchRound o (.events slots)) (fun more w => InBatch o w ∧ w.loops = v.loops ∧
      w.totalReturn - w.kernel.received = v.totalReturn - v.kernel.received ∧
      (more = false → w.kernel.pending = 0)) (fun _ _ => False) v := by
  obtain ⟨hopen, htotal, hnonneg⟩ := hv
  obtain ⟨slots', heq, hlen, hsub, -⟩ := ha
  obtain rfl : slots = slots' := Answer.events.inj heq
  have hvalue : (Answer.events slots).value = slots.length := rfl
  have hcard : (v.kernel.pending - ↑slots).card + slots.length = v.kernel.pending.card := by
    have hle := Multiset.card_le_card hsub
    rw [Multiset.coe_card] at hle
    rw [Multiset.card_sub hsub, Multiset.coe_card]
    omega
  have hchecked : checked (v.totalReturn + (Answer.events slots).value) =
      .ok (v.totalReturn + (Answer.events slots).value) := checked_of_range (by omega) (by omega)
  have hopen' : (Kernel.harvest (.events slots)
      (Kernel.record (.getevents o.depth o.depth) v.kernel)).Open :=
    (hopen.record (c := .getevents o.depth o.depth) trivial).harvest _
  have hdone : v.totalReturn + (Answer.events slots).value -
      ((v.kernel.received + slots.length : Nat) : Int) = v.totalReturn - v.kernel.received := by
    omega
  unfold batchRound
  simp only [wp_bind, wp_onBatchKernel]
  rw [wp_runIf]
  refine ⟨fun hneg => absurd hneg (by omega), fun _ => ?_⟩
  rw [wp_ite]
  constructor
  · intro hzero
    rw [hzero, Int.add_zero] at hdone
    rw [wp_pure]
    refine ⟨⟨hopen', ?_, hnonneg⟩, rfl, hdone, fun hmore => by cases hmore⟩
    change v.totalReturn + ((v.kernel.pending - ↑slots).card : Nat) = _
    omega
  · intro _
    simp only [wp_bind, wp_get, hchecked, wp_lift_ok, wp_modify, wp_pure]
    have htotal' : v.totalReturn + (Answer.events slots).value +
        ((v.kernel.pending - ↑slots).card : Nat) = o.depth.toNat := by
      omega
    have hnonneg' : 0 ≤ v.totalReturn + (Answer.events slots).value := by omega
    refine ⟨⟨hopen', htotal', hnonneg'⟩, trivial, hdone, fun hmore => ?_⟩
    have hfull : o.depth ≤ v.totalReturn + (Answer.events slots).value := by
      simpa using hmore
    have hcard' : (v.kernel.pending - ↑slots).card = 0 := by
      omega
    exact Multiset.card_eq_zero.mp hcard'

theorem nextBatch_counts (o : Options) (v : BatchVars) :
    wp (nextBatch o)
      (fun more w => w.loops = v.loops + 1 ∧ w.kernel.received = v.kernel.received ∧
        w.totalReturn = (if more then 0 else v.totalReturn) ∧ (v.kernel.Open → w.kernel.Open) ∧
        (more → v.kernel.pending = 0 → w.kernel.pending.card = o.depth.toNat))
      (fun _ w => w = v) v := by
  unfold nextBatch
  rw [wp_bind, wp_get, wp_bind, wp_lift]
  refine ⟨fun loops hloops => ?_, fun e _ => rfl⟩
  have hnext : loops = v.loops + 1 := (checked_eq_ok hloops).1
  rw [wp_bind, wp_modify, wp_ite]
  constructor
  · intro _
    simp only [wp_bind, wp_onBatchKernel, wp_modify, wp_pure]
    refine ⟨hnext, rfl, rfl, fun hopen => hopen.submit (allSlots o), fun _ hnone => ?_⟩
    change (v.kernel.pending + ↑(allSlots o)).card = o.depth.toNat
    rw [hnone, Multiset.zero_add, Multiset.coe_card, allSlots, List.length_range]
  · intro _
    rw [wp_pure]
    exact ⟨hnext, rfl, rfl, id, fun hmore => by cases hmore⟩

theorem wp_countedRound {o : Options} {a : Answer} {r : BatchRun} {Q : Bool → BatchRun → Prop}
    {E : Stop → BatchRun → Prop} :
    wp (countedRound o a) Q E r ↔ wp (testRound o a)
      (fun more w => Q more
        ⟨w, if more ∧ w.loops ≠ r.vars.loops then w.kernel.received else r.before⟩)
      (fun e w => E e ⟨w, r.before⟩) r.vars := by
  unfold wp countedRound
  rcases testRound o a r.vars with ⟨e | more, w⟩
  · exact Iff.rfl
  · cases more with
    | false => simp
    | true =>
      dsimp only
      by_cases hloops : w.loops = r.vars.loops <;> simp [hloops]

theorem countedRound_good {o : Options} (hdepth : o.depth < 2 ^ 31) {r : BatchRun}
    (hr : TestGood r) (hv : InBatch o r.vars) {slots : List Nat}
    (ha : r.vars.kernel.MayReturn true o.depth (.events slots)) :
    wp (countedRound o (.events slots))
      (fun more w => TestGood w ∧ (more → InBatch o w.vars)) (fun _ => TestGood) r := by
  obtain ⟨hcounted, hopen⟩ := hr
  rw [wp_countedRound]
  unfold testRound
  rw [wp_bind]
  apply wp_mono (batchRound_counts hdepth hv ha) _ fun _ _ hfalse => hfalse.elim
  rintro more w ⟨hbatch, hloops, hdone, hlast⟩
  cases more with
  | true =>
    have hcount : w.totalReturn = w.kernel.received - r.before := by omega
    rw [if_pos rfl, wp_pure, if_neg (by simp [hloops])]
    exact ⟨⟨hcount, hbatch.unclosed⟩, fun _ => hbatch⟩
  | false =>
    rw [if_neg (by decide)]
    apply wp_mono (nextBatch_counts o w)
    · rintro more w' ⟨hnext, hreceived, htotal, hopen', hfull⟩
      have hopen' := hopen' hbatch.unclosed
      cases more with
      | true =>
        have hcount : w'.totalReturn = w'.kernel.received - w'.kernel.received := by
          rw [htotal, if_pos rfl, Int.sub_self]
        rw [if_pos ⟨rfl, by omega⟩]
        exact ⟨⟨hcount, hopen'⟩, fun _ => InBatch.begun hopen' htotal (hfull rfl (hlast rfl))⟩
      | false =>
        rw [if_neg (by decide)] at htotal
        have hcount : w'.totalReturn = w'.kernel.received - r.before := by omega
        rw [if_neg (by simp)]
        exact ⟨⟨hcount, hopen'⟩, fun hmore => by cases hmore⟩
    · rintro e w' rfl
      have hcount : w'.totalReturn = w'.kernel.received - r.before := by omega
      exact ⟨hcount, hbatch.unclosed⟩

theorem batchRound_error {o : Options} {v : BatchVars} {n : Int} (hn : n < 0) :
    wp (batchRound o (.error n))
      (fun _ w => w.totalReturn = v.totalReturn + n ∧ w.kernel.received = v.kernel.received)
      (fun _ _ => True) v := by
  have hvalue : (Answer.error n).value = n := rfl
  unfold batchRound
  simp only [wp_bind, wp_onBatchKernel]
  rw [hvalue, wp_runIf]
  refine ⟨fun _ => ?_, fun hneg => absurd hn hneg⟩
  rw [wp_bind, wp_onBatchKernel, wp_onBatchKernel, if_neg (by omega), wp_bind, wp_get, wp_bind,
    wp_lift]
  refine ⟨fun total htotal => ?_, fun _ _ => trivial⟩
  rw [wp_bind, wp_modify, wp_pure]
  exact ⟨(checked_eq_ok htotal).1, rfl⟩

theorem countedRound_error {o : Options} {r : BatchRun} (hr : TestGood r) {n : Int} (hn : n < 0) :
    wp (countedRound o (.error n)) (fun more w => more = false → ¬ TestSound (.left, w))
      (fun _ _ => True) r := by
  rw [wp_countedRound]
  unfold testRound
  rw [wp_bind]
  apply wp_mono (batchRound_error hn) _ fun _ _ _ => trivial
  rintro more w ⟨hdone, hreceived⟩
  cases more with
  | true =>
    rw [if_pos rfl, wp_pure]
    exact fun hmore => by cases hmore
  | false =>
    rw [if_neg (by decide)]
    apply wp_mono (nextBatch_counts o w) _ fun _ _ _ => trivial
    rintro more w' ⟨-, hreceived', htotal, -⟩ rfl hsound
    have hcounted : w'.totalReturn = w'.kernel.received - r.before := hsound.counted
    rw [if_neg (by decide)] at htotal
    have hbefore := hr.1
    omega

theorem test_good {o : Options} {buf : Nat → Nat} (hdepth : o.depth < 2 ^ 31)
    {x : Status × BatchRun}
    (hx : ((testWithErrors o buf).under fun _ a => 0 ≤ a.value).Reached x) :
    TestGood x.2 ∧ (x.1 = .waiting → InBatch o x.2.vars) := by
  refine Machine.invariant (I := fun x => TestGood x.2 ∧ (x.1 = .waiting → InBatch o x.2.vars))
    ?_ (fun a r hr ha => ?_) hx
  · rintro ⟨v, before⟩ ⟨⟨ios, -, hstart⟩, hbefore⟩
    have hnone : (⟨ios, 0, 0, []⟩ : Kernel).Open := fun c hc => absurd hc List.not_mem_nil
    have hfirst := (wp_of_eq hstart).mp (nextBatch_counts o ⟨⟨ios, 0, 0, []⟩, 0, 0⟩)
    obtain ⟨-, hreceived, htotal, hopen, hfull⟩ := hfirst
    have hcount : v.totalReturn = v.kernel.received - before := by
      rw [hreceived, htotal, show before = 0 from hbefore]
      rfl
    exact ⟨⟨hcount, hopen hnone⟩, fun _ => InBatch.begun (hopen hnone) htotal (hfull rfl rfl)⟩
  · obtain ⟨hallowed, hvalue⟩ := ha
    have hreturn := hallowed.mayReturn hvalue
    obtain ⟨slots, rfl, -⟩ := id hreturn
    apply wp_mono (countedRound_good hdepth hr.1 (hr.2 rfl) hreturn)
    · intro more w hw
      refine ⟨hw.1, fun hstatus => hw.2 ?_⟩
      cases more with
      | true => rfl
      | false => cases hstatus
    · intro e w hw
      exact ⟨hw, fun hstatus => by cases hstatus⟩

theorem test_handled {o : Options} {buf : Nat → Nat} (hdepth : o.depth < 2 ^ 31) {r : BatchRun}
    {a : Answer} (hr : TestGood r) (hv : InBatch o r.vars)
    (ha : r.vars.kernel.MayAnswer true o.depth a) :
    Handled (testWithErrors o buf) TestSound r a ↔ 0 ≤ a.value := by
  constructor
  · rintro ⟨hsound, hleft⟩
    by_contra hneg
    have hfailed : ∃ n, a = .error n ∧ n < 0 := by
      rcases ha with ⟨n, rfl, -, hn⟩ | ⟨slots, rfl, -⟩
      · exact ⟨n, rfl, hn⟩
      · exact absurd (Int.natCast_nonneg _) hneg
    obtain ⟨n, rfl, hn⟩ := hfailed
    have hwrong := Machine.next_of_wp (M := testWithErrors o buf) (s := r) (a := .error n)
      (I := fun x => ¬ (TestSound x ∧ x.1 = .left)) (wp_mono (countedRound_error hr hn) ?_ ?_)
    · exact hwrong ⟨hsound, hleft hn⟩
    · rintro more w hw ⟨hsound', hstatus⟩
      cases more with
      | true => cases hstatus
      | false => exact hw rfl hsound'
    · rintro e w - ⟨-, hstatus⟩
      cases hstatus
  · intro hvalue
    have hreturn := ha.mayReturn hvalue
    refine ⟨?_, fun hneg => absurd hneg (by omega)⟩
    obtain ⟨slots, rfl, -⟩ := id hreturn
    apply Machine.next_of_wp (I := TestSound)
    exact wp_mono (countedRound_good hdepth hr hv hreturn) (fun _ _ h => h.1.sound _)
      fun _ _ h => h.sound _

/-- In every run without a failed call the counters are right and nothing is used after its end,
as long as done has room for what is harvested; the other calls are the ones that are not
handled. -/
theorem errorPath_runs {o : Options} {buf : Nat → Nat} (hdepth : o.depth < 2 ^ 31) :
    ((∀ x, ((queueWithErrors o).under QueueServed).Reached x → QueueSound x) ∧
      ∀ x, ((testWithErrors o buf).under fun _ a => 0 ≤ a.value).Reached x → TestSound x) ∧
    (∀ v a, ((queueWithErrors o).under QueueServed).Reached (.waiting, v) →
      (queueWithErrors o).allowed v a →
      (Handled (queueWithErrors o) QueueSound v a ↔ QueueServed v a)) ∧
    ∀ r a, ((testWithErrors o buf).under fun _ a => 0 ≤ a.value).Reached (.waiting, r) →
      (testWithErrors o buf).allowed r a →
      (Handled (testWithErrors o buf) TestSound r a ↔ 0 ≤ a.value) := by
  refine ⟨⟨fun x hx => (queue_good hx).sound x.1, fun x hx => ?_⟩, fun v a hv ha => ?_,
    fun r a hr ha => ?_⟩
  · exact (test_good hdepth hx).1.sound x.1
  · exact queue_handled (queue_good hv) ha
  · have hgood := test_good hdepth hr
    exact test_handled hdepth hgood.1 (hgood.2 rfl) ha

/-- One request and an interrupted call: the loop goes on with the counter at -4. -/
theorem interrupted_fails :
    ¬ ∀ x, (queueWithErrors ⟨false, 4096, 1, 1⟩).Reached x → QueueSound x := by
  intro hsound
  have hfirst : ∃ v, queueSetup ⟨false, 4096, 1, 1⟩ = .ok v ∧ v.done = 0 ∧ v.kernel.received = 0 :=
    ⟨_, rfl, rfl, rfl⟩
  obtain ⟨v, hstart, hdone, hreceived⟩ := hfirst
  have hallowed : v.kernel.MayAnswer false 1 (.error (-4)) :=
    Or.inl ⟨-4, rfl, by decide, by decide⟩
  have hwrong := Machine.next_of_wp (M := queueWithErrors ⟨false, 4096, 1, 1⟩) (s := v)
    (I := fun x => ¬ QueueSound x) (wp_mono (queueRound_error (n := -4) (by decide)) ?_ ?_)
  · exact hwrong (hsound _ (Machine.reached_next (Machine.reached_start hstart) hallowed))
  · rintro more w ⟨hdone', hreceived'⟩ hcounted
    have heq := hcounted.counted
    rw [hdone', hreceived', hdone, hreceived] at heq
    exact absurd heq (by decide)
  · rintro e w hrange
    rw [hdone] at hrange
    exact absurd hrange (by decide)

theorem errorPath_fourRequests :
    ((∀ x, ((queueWithErrors fourRequests).under QueueServed).Reached x → QueueSound x) ∧
      ∃ v, ((queueWithErrors fourRequests).under QueueServed).Reached (.waiting, v)) ∧
    (∀ x, ((testWithErrors fourRequests fun i => 512 * i).under
        fun _ a => 0 ≤ a.value).Reached x → TestSound x) ∧
      ∃ r, ((testWithErrors fourRequests fun i => 512 * i).under
        fun _ a => 0 ≤ a.value).Reached (.waiting, r) := by
  obtain ⟨hqueue, htest⟩ := (@errorPath_runs fourRequests (fun i => 512 * i) (by decide)).1
  obtain ⟨v, hv, -⟩ := queueSetup_ok (o := fourRequests) (by decide)
  obtain ⟨w, hw⟩ := testMachine_start (o := fourRequests) (fun i => 512 * i) (by decide) (by decide)
    (by decide) (by decide)
  exact ⟨⟨hqueue, v, Machine.reached_start hv⟩, htest, ⟨w, 0⟩, Machine.reached_start ⟨hw, rfl⟩⟩

end PerfTools.Io
