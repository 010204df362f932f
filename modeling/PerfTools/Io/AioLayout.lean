import PerfTools.Io.AioErrors

/-!
# The layout of the requests

Request i is to cover the i-th block of the file. io_queue multiplies the block size by an
unsigned long, io_test by an int, so that from 2^31 on the product of io_test is undefined.
Neither tool compares the depth with the size of its arrays.
-/

namespace PerfTools.Io

open Memory Exec

/-- The bytes of the file that a request covers: the first, and the one behind the last. -/
def Iocb.range (r : Iocb) : Int × Int := (r.offset, r.offset + r.nbytes)

/-- init_ios, as far as it numbers the slots; its buffers are obtained. -/
def initIos : Nat → Nat → List Nat → Except Fault (List Nat)
  | 0, _, index => .ok index
  | n + 1, i, index =>
    if maxDepth ≤ i then .error .outOfBounds else initIos n (i + 1) (index.set i i)

/-- The requests of io_queue. -/
def queueRequests (o : Options) : Except Fault (List Iocb) := do
  let _ ← initIos o.depth.toNat 0 (List.replicate maxDepth 0)
  let v ← queueSetup o
  return v.kernel.ios

/-- The requests of io_test. -/
def testRequests (o : Options) (buf : Nat → Nat) : Except Fault (List Iocb) := do
  let _ ← initIos o.depth.toNat 0 (List.replicate maxDepth 0)
  batchIos o buf

/-- Request i covers block i, and two requests have no byte in common. -/
structure Consecutive (o : Options) (ios : List Iocb) : Prop where
  covers : ∀ i < o.depth.toNat, ios[i]?.map Iocb.range = some (o.bs * i, o.bs * (i + 1))
  disjoint : ∀ i j r s, i < j → j < o.depth.toNat → ios[i]? = some r → ios[j]? = some s →
    r.range.2 ≤ s.range.1

/-- Both tools lay out their requests in the same way and stay inside their arrays, whose last
one is filled by the kernel. -/
structure LayoutLaw (o : Options) (buf : Nat → Nat) : Prop where
  queue : ∃ ios, queueRequests o = .ok ios ∧ Consecutive o ios
  test : ∃ ios, testRequests o buf = .ok ios ∧ Consecutive o ios
  same : ∀ ios ios', queueRequests o = .ok ios → testRequests o buf = .ok ios' →
    ∀ i < o.depth.toNat, ios[i]?.map Iocb.range = ios'[i]?.map Iocb.range
  indices : ∀ x, (queueWithErrors o).Reached x → x.1 ≠ .stopped (.fault .outOfBounds)
  queueEvents : ∀ v slots, (queueWithErrors o).Reached (.waiting, v) →
    (queueWithErrors o).allowed v (.events slots) → slots.length ≤ maxDepth
  testEvents : ∀ r slots, (testWithErrors o buf).Reached (.waiting, r) →
    (testWithErrors o buf).allowed r (.events slots) → slots.length ≤ maxDepth

/-! ## The requests -/

theorem initIos_eq_ok {n i : Nat} {index index' : List Nat} (h : initIos n i index = .ok index')
    (hn : 0 < n) : i + n ≤ maxDepth := by
  induction n generalizing i index with
  | zero => omega
  | succ n ih =>
    rw [initIos] at h
    split_ifs at h with hmax
    rcases Nat.eq_zero_or_pos n with rfl | hpos
    · omega
    · have hrest := ih h hpos
      omega

theorem initIos_ok {n i : Nat} (index : List Nat) (h : i + n ≤ maxDepth) :
    ∃ index', initIos n i index = .ok index' := by
  induction n generalizing i index with
  | zero => exact ⟨index, rfl⟩
  | succ n ih =>
    rw [initIos, if_neg (by omega)]
    exact ih _ (by omega)

theorem Consecutive.of_covers {o : Options} {ios : List Iocb} (hbs : 0 < o.bs)
    (h : ∀ i < o.depth.toNat, ios[i]?.map Iocb.range = some (o.bs * i, o.bs * (i + 1))) :
    Consecutive o ios := by
  refine ⟨h, fun i j r s hij hj hr hs => ?_⟩
  have hfirst := h i (by omega)
  have hsecond := h j hj
  rw [hr, Option.map_some] at hfirst
  rw [hs, Option.map_some] at hsecond
  rw [Option.some.inj hfirst, Option.some.inj hsecond]
  apply Int.mul_le_mul_of_nonneg_left _ hbs.le
  exact_mod_cast hij

/-- The requests that the loop of a tool fills in, when their offsets are the products. -/
theorem prepare_consecutive {o : Options} {data : Nat → Nat} {offset : Nat → Except Fault Int}
    {n : Nat} {ios : List Iocb} (hbs : 0 < o.bs ∧ o.bs < 2 ^ 31) (hn : o.depth.toNat = n)
    (h : prepare o data offset n 0 zeroIos = .ok ios)
    (hoffset : ∀ i off, i < n → offset i = .ok off → off = o.bs * i) : Consecutive o ios := by
  apply Consecutive.of_covers hbs.1
  intro i hi
  obtain ⟨-, off, hoff, hrequest⟩ :=
    (prepare_request h List.length_replicate).1 i (Nat.zero_le i) (by omega)
  have hbytes : ((o.bs % 2 ^ 64).toNat : Int) = o.bs := by omega
  rw [hrequest, Option.map_some, Iocb.range, hbytes, hoffset i off (by omega) hoff, mul_add, mul_one]

theorem queueRequests_consecutive {o : Options} (hbs : 0 < o.bs ∧ o.bs < 2 ^ 31)
    (hdepth : 0 < o.depth ∧ o.depth ≤ maxDepth) :
    ∃ ios, queueRequests o = .ok ios ∧ Consecutive o ios := by
  have hmax : maxDepth = 1024 := rfl
  have hn : (o.depth % 2 ^ 64).toNat = o.depth.toNat := by omega
  obtain ⟨index, hindex⟩ := initIos_ok (i := 0) (n := o.depth.toNat)
    (List.replicate maxDepth 0) (by omega)
  obtain ⟨ios, hios⟩ := prepare_ok o id zeroIos
    (show 0 + (o.depth % 2 ^ 64).toNat ≤ maxDepth by omega)
    fun i _ _ => ⟨toInt64 ((o.bs % 2 ^ 64).toNat * i), rfl⟩
  refine ⟨ios, ?_, prepare_consecutive hbs hn.symm hios fun i off hi hoff => ?_⟩
  · rw [queueRequests, hindex, ok_bind, queueSetup, hios]
    rfl
  · have hbound : (o.bs % 2 ^ 64).toNat * i ≤ 2 ^ 31 * 1024 :=
      Nat.mul_le_mul (by omega) (by omega)
    rw [← Except.ok.inj hoff, toInt64_of_lt (by omega), Nat.cast_mul]
    congr 1
    omega

/-- The block of the last request begins below 2^31. -/
def LastFits (o : Options) : Prop := o.bs * (o.depth - 1) < 2 ^ 31

theorem testRequests_consecutive {o : Options} (buf : Nat → Nat)
    (hbs : 0 < o.bs ∧ o.bs < 2 ^ 31) (hdepth : 0 < o.depth ∧ o.depth ≤ maxDepth)
    (hlast : LastFits o) :
    ∃ ios, testRequests o buf = .ok ios ∧ Consecutive o ios := by
  have hmax : maxDepth = 1024 := rfl
  unfold LastFits at hlast
  obtain ⟨index, hindex⟩ := initIos_ok (i := 0) (n := o.depth.toNat)
    (List.replicate maxDepth 0) (by omega)
  have hoffset (j : Nat) (_ : 0 ≤ j) (hj : j < 0 + o.depth.toNat) :
      ∃ off, checked (o.bs * j) = .ok off := by
    have hle : o.bs * j ≤ o.bs * (o.depth - 1) :=
      Int.mul_le_mul_of_nonneg_left (by omega) hbs.1.le
    have hnonneg : 0 ≤ o.bs * j := Int.mul_nonneg hbs.1.le (Int.natCast_nonneg j)
    exact ⟨_, checked_of_range (by omega) (by omega)⟩
  obtain ⟨ios, hios⟩ := prepare_ok o buf zeroIos
    (show 0 + o.depth.toNat ≤ maxDepth by omega) hoffset
  refine ⟨ios, ?_, prepare_consecutive hbs rfl hios fun i off _ hoff => (checked_eq_ok hoff).1⟩
  rw [testRequests, hindex, ok_bind, batchIos, hios]

/-- io_test gets its requests only when the arrays hold them and the products fit. -/
theorem testRequests_needs {o : Options} {buf : Nat → Nat} (hdepth : 0 < o.depth) {ios : List Iocb}
    (h : testRequests o buf = .ok ios) : o.depth ≤ maxDepth ∧ LastFits o := by
  unfold testRequests at h
  cases hindex : initIos o.depth.toNat 0 (List.replicate maxDepth 0) with
  | error e => simp [hindex] at h
  | ok index =>
    rw [hindex, ok_bind] at h
    have hinside := initIos_eq_ok hindex (by omega)
    obtain ⟨-, off, hoff, -⟩ := (prepare_request h List.length_replicate).1
      (o.depth.toNat - 1) (Nat.zero_le _) (by omega)
    have hfits := (checked_eq_ok hoff).2.2
    have hindex : ((o.depth.toNat - 1 : Nat) : Int) = o.depth - 1 := by omega
    rw [hindex] at hfits
    exact ⟨by omega, hfits⟩

/-! ## The runs -/

/-- What a run of io_queue needs to find the slot of a completion. -/
structure Filled (o : Options) (k : Kernel) : Prop where
  each : k.EachOnce o
  fresh : k.NeverTwice
  numbered : k.Numbered o

theorem Filled.record {o : Options} {k : Kernel} (h : Filled o k) {c : Call} (hc : c.Fresh) :
    Filled o (k.record c) :=
  ⟨h.each, h.fresh.record hc, h.numbered⟩

theorem queueRound_filled {o : Options} (hdepth : o.depth.toNat ≤ maxDepth) {v : QueueVars}
    (hv : Filled o v.kernel) {a : Answer} (ha : v.kernel.MayAnswer false o.depth a) :
    wp (queueRound o a) (fun _ w => Filled o w.kernel)
      (fun e _ => e ≠ .fault .outOfBounds) v := by
  have hasked : Filled o (v.kernel.record (.getevents 1 o.depth)) := hv.record trivial
  unfold queueRound
  simp only [wp_bind, wp_get, wp_onKernel]
  rcases ha with ⟨n, rfl, -, hn⟩ | ⟨slots, rfl, -, hsub, hsome⟩
  · have hvalue : (Answer.error n).value = n := rfl
    rw [hvalue, wp_runIf]
    refine ⟨fun _ => ?_, fun hneg => absurd hn hneg⟩
    have hclosed := (hasked.record (c := .close) trivial).record (c := .destroy) trivial
    rw [wp_bind, wp_onKernel, wp_onKernel, if_neg (by omega), wp_bind, wp_get, wp_bind, wp_lift]
    refine ⟨fun total _ => hclosed, fun e he hbad => ?_⟩
    have hover := (checked_eq_error he).1
    rw [hover] at hbad
    cases hbad
  · have hvalue : (Answer.events slots).value = slots.length := rfl
    have hlen : 0 < slots.length := List.length_pos_iff.mpr (hsome rfl)
    have hslots (j : Nat) (hj : j ∈ slots) : j < o.depth.toNat := by
      rw [← Multiset.mem_range, ← hv.each]
      exact Multiset.mem_of_le hsub hj
    have hback : v.kernel.pending - slots + slots = Multiset.range o.depth.toNat := by
      rw [Multiset.sub_add_cancel hsub]
      exact hv.each
    rw [hvalue, wp_runIf]
    refine ⟨fun hneg => absurd hneg (by omega), fun _ => ?_⟩
    rw [if_neg (by omega), wp_bind, wp_get, wp_bind, wp_lift]
    refine ⟨fun total _ => ?_, fun e he hbad => ?_⟩
    · rw [wp_bind, wp_modify, wp_bind, hv.numbered.eventData hslots]
      apply wp_mono (resubmit_spec hdepth hback (hasked.fresh.harvest _)) _ fun _ _ h => h.elim
      rintro - w ⟨heach, hfresh, hios, -⟩
      refine ⟨heach, hfresh, fun j hj => ?_⟩
      rw [hios]
      exact hv.numbered j hj
    · have hover := (checked_eq_error he).1
      rw [hover] at hbad
      cases hbad

theorem queue_filled {o : Options} (hdepth : 0 < o.depth ∧ o.depth ≤ maxDepth)
    {x : Status × QueueVars} (hx : (queueWithErrors o).Reached x) :
    x.1 ≠ .stopped (.fault .outOfBounds) ∧ (x.1 = .waiting → Filled o x.2.kernel) := by
  refine Machine.invariant (I := fun x => x.1 ≠ .stopped (.fault .outOfBounds) ∧
    (x.1 = .waiting → Filled o x.2.kernel)) (fun v hv => ?_) (fun a v hv ha => ?_) hx
  · obtain ⟨hlaw, hnumbered⟩ := queueSetup_spec hdepth hv
    exact ⟨by simp, fun _ => ⟨hlaw.1, hlaw.2.2.1, hnumbered⟩⟩
  · apply wp_mono (queueRound_filled (by omega) (hv.2 rfl) ha)
    · intro more w hw
      cases more with
      | true => exact ⟨by simp, fun _ => hw⟩
      | false => exact ⟨by simp, fun hstatus => by cases hstatus⟩
    · intro e w he
      exact ⟨fun hbad => he (Status.stopped.inj hbad), fun hstatus => by cases hstatus⟩

/-- There are never more events than were asked for. -/
theorem Kernel.MayAnswer.length_le {k : Kernel} {timed : Bool} {nr : Int} {slots : List Nat}
    (h : k.MayAnswer timed nr (.events slots)) : (slots.length : Int) ≤ nr := by
  obtain ⟨slots', heq, hlen, -⟩ := h.mayReturn (Int.natCast_nonneg _)
  rwa [Answer.events.inj heq]

/-- The layout is right exactly when the arrays hold the requests and the offset of the last one
is an int. -/
theorem layout_iff {o : Options} {buf : Nat → Nat} (hbs : 0 < o.bs ∧ o.bs < 2 ^ 31)
    (hdepth : 0 < o.depth ∧ o.depth < 2 ^ 31) :
    LayoutLaw o buf ↔ o.depth ≤ 1024 ∧ o.bs * (o.depth - 1) < 2 ^ 31 := by
  constructor
  · intro h
    obtain ⟨ios, hios, -⟩ := h.test
    exact testRequests_needs hdepth.1 hios
  · rintro ⟨hmax, hlast⟩
    have hqueue := queueRequests_consecutive hbs ⟨hdepth.1, hmax⟩
    have htest := testRequests_consecutive buf hbs ⟨hdepth.1, hmax⟩ hlast
    refine ⟨hqueue, htest, fun ios ios' hios hios' i hi => ?_,
      fun x hx => (queue_filled ⟨hdepth.1, hmax⟩ hx).1, fun v slots _ ha => ?_, fun r slots _ ha => ?_⟩
    · obtain ⟨ios₁, hios₁, hlaw⟩ := hqueue
      obtain ⟨ios₂, hios₂, hlaw'⟩ := htest
      obtain rfl := Except.ok.inj (hios.symm.trans hios₁)
      obtain rfl := Except.ok.inj (hios'.symm.trans hios₂)
      rw [hlaw.covers i hi, hlaw'.covers i hi]
    · have hle := Kernel.MayAnswer.length_le ha
      exact_mod_cast hle.trans hmax
    · have hle := Kernel.MayAnswer.length_le ha
      exact_mod_cast hle.trans hmax

/-- Three requests of a gigabyte: the offset of the last one is 2^31. -/
theorem gigabytes_fail : ¬ LayoutLaw ⟨false, 2 ^ 30, 1, 3⟩ id := by
  intro h
  obtain ⟨ios, hios, -⟩ := h.test
  have hlast : LastFits ⟨false, 2 ^ 30, 1, 3⟩ := (testRequests_needs (by decide) hios).2
  unfold LastFits at hlast
  exact absurd hlast (by decide)

theorem layout_fourPages : LayoutLaw ⟨false, 4096, 1, 4⟩ id :=
  (layout_iff (by decide) (by decide)).mpr (by decide)

end PerfTools.Io
