import PerfTools.X.VsyncSetup

/-!
# What every run of modeset-vsync keeps

Between a flip that was asked for and the handling of its event there is exactly one trace of it:
in the kernel, among the events that can be read, or among those that have been read. This is when
pflip_pending is set. The back buffer is on the screen only as long as the flip away from it is
under way.
-/

namespace PerfTools.X

open Memory Exec

/-! ## Devices -/

namespace FlipDev

variable {d : FlipDev}

theorem backBuf_ne (d : FlipDev) : d.backBuf ≠ d.frontBuf := by
  unfold backBuf
  generalize d.frontBuf = i
  revert i
  decide

theorem eq_front_or_back (d : FlipDev) (i : Fin 2) : i = d.frontBuf ∨ i = d.backBuf := by
  unfold backBuf
  generalize d.frontBuf = j
  revert i j
  decide

theorem backBuf_backBuf {d d' : FlipDev} (h : d'.frontBuf = d.backBuf) :
    d'.backBuf = d.frontBuf := by
  unfold backBuf at h ⊢
  rw [h]
  generalize d.frontBuf = i
  revert i
  decide

theorem buf_eq_of_fb (h : (d.bufs 0).fb ≠ (d.bufs 1).fb) {i j : Fin 2}
    (hfb : (d.bufs i).fb = (d.bufs j).fb) : i = j := by
  have hcases (i : Fin 2) : i = 0 ∨ i = 1 := by
    revert i
    decide
  rcases hcases i with rfl | rfl <;> rcases hcases j with rfl | rfl
  · rfl
  · exact absurd hfb h
  · exact absurd hfb.symm h
  · rfl

end FlipDev

/-- The devices differ at most in what is only for drawing, or in the clean-up mark. -/
structure FlipDev.Alike (d d' : FlipDev) : Prop where
  bufs : d'.bufs = d.bufs
  front : d'.frontBuf = d.frontBuf
  crtc : d'.crtc = d.crtc
  pending : d'.pflipPending = d.pflipPending
  saved : d'.savedCrtc = d.savedCrtc

/-- The data of the flip that the kernel has not made yet. -/
def CrtcState.flying (k : CrtcState) : List Nat := (k.pending.map Prod.snd).toList

@[simp] theorem CrtcState.flying_none {scanout : Option UInt32} :
    (⟨scanout, none⟩ : CrtcState).flying = [] := rfl

@[simp] theorem CrtcState.flying_some {scanout : Option UInt32} {fb : UInt32} {i : Nat} :
    (⟨scanout, some (fb, i)⟩ : CrtcState).flying = [i] := rfl

/-- What the flip that is under way may be, for a device at address i. -/
structure OwnFlip (i : Nat) (d : FlipDev) (c fb : UInt32) (data : Nat) : Prop where
  own : data = i → c = d.crtc ∧ fb = d.front.fb
  other : data ≠ i → c ≠ d.crtc ∧ ∀ b, fb ≠ (d.bufs b).fb

/-- The condition of the device at address i: of the CRTCs, the events that have not been handled,
and whether the program is painting its back buffer. -/
structure Sound (drm : Drm) (crtcs : UInt32 → CrtcState) (queue : List Nat) (painting : Prop)
    (i : Nat) (d : FlipDev) : Prop where
  fits : ∀ b, (d.bufs b).Fits
  gives : ∀ b, drm.Gives (d.bufs b).fb
  apart : (d.bufs 0).fb ≠ (d.bufs 1).fb
  outstanding : ((crtcs d.crtc).flying ++ queue).count i = d.pflipPending.toNat
  flips : ∀ c fb data, (crtcs c).pending = some (fb, data) → OwnFlip i d c fb data
  screen : ∀ c b, (crtcs c).scanout = some (d.bufs b).fb →
    c = d.crtc ∧ (b = d.backBuf → (crtcs c).pending ≠ none)
  saved : ∀ s, d.savedCrtc = some s →
    s.crtcId = d.crtc ∧ ∀ fb, s.bufferId = some fb → ¬ drm.Gives fb
  front : d.front.Uniform
  back : ¬ painting → d.back.Uniform

namespace Sound

variable {drm : Drm} {crtcs crtcs' : UInt32 → CrtcState} {queue queue' : List Nat}
  {painting painting' : Prop} {i : Nat} {d d' : FlipDev}

theorem congr (h : Sound drm crtcs queue painting i d) (hd : d.Alike d') :
    Sound drm crtcs queue painting i d' := by
  have hback : d'.backBuf = d.backBuf := by rw [FlipDev.backBuf, FlipDev.backBuf, hd.front]
  refine ⟨hd.bufs.symm ▸ h.fits, hd.bufs.symm ▸ h.gives, hd.bufs.symm ▸ h.apart, ?_, ?_, ?_, ?_,
    ?_, ?_⟩
  · rw [hd.crtc, hd.pending]
    exact h.outstanding
  · intro c fb data hflip
    have hown := h.flips c fb data hflip
    exact ⟨by rw [hd.crtc, FlipDev.front, hd.bufs, hd.front]; exact hown.own,
      by rw [hd.crtc, hd.bufs]; exact hown.other⟩
  · rw [hd.bufs, hd.crtc, hback]
    exact h.screen
  · rw [hd.saved, hd.crtc]
    exact h.saved
  · rw [FlipDev.front, hd.bufs, hd.front]
    exact h.front
  · rw [FlipDev.back, hd.bufs, hback]
    exact h.back

theorem repaint (h : Sound drm crtcs queue painting i d) (hpaint : painting → painting') :
    Sound drm crtcs queue painting' i d :=
  { h with back := fun hnot => h.back (mt hpaint hnot) }

theorem requeue (h : Sound drm crtcs queue painting i d) (hqueue : queue'.count i = queue.count i) :
    Sound drm crtcs queue' painting i d :=
  { h with outstanding := by rw [List.count_append, hqueue, ← List.count_append, h.outstanding] }

theorem rescan (h : Sound drm crtcs queue painting i d)
    (hpending : ∀ c, (crtcs' c).pending = (crtcs c).pending)
    (hscanout : ∀ c b, (crtcs' c).scanout = some (d.bufs b).fb →
      (crtcs c).scanout = some (d.bufs b).fb ∨ c = d.crtc ∧ b = d.frontBuf) :
    Sound drm crtcs' queue painting i d := by
  refine { h with outstanding := ?_, flips := ?_, screen := ?_ }
  · rw [CrtcState.flying, hpending]
    exact h.outstanding
  · intro c fb data hflip
    exact h.flips c fb data (hpending c ▸ hflip)
  · intro c b hc
    rw [hpending]
    rcases hscanout c b hc with hold | ⟨hown, hfront⟩
    · exact h.screen c b hold
    · exact ⟨hown, fun hback => absurd (hback.symm.trans hfront) d.backBuf_ne⟩

/-- A device that waits for nothing has no flip under way. -/
theorem idle (h : Sound drm crtcs queue painting i d) (hidle : d.pflipPending = false) :
    (crtcs d.crtc).pending = none := by
  have hcount := h.outstanding
  rw [hidle, Bool.toNat_false, List.count_eq_zero] at hcount
  cases hpending : (crtcs d.crtc).pending with
  | none => rfl
  | some flip =>
    obtain ⟨fb, data⟩ := flip
    have hown := h.flips d.crtc fb data hpending
    by_cases hdata : data = i
    · exact (hcount (by simp [CrtcState.flying, hpending, hdata])).elim
    · exact absurd rfl (hown.other hdata).1

theorem vblank (h : Sound drm crtcs queue painting i d) {c fb : UInt32} {data : Nat}
    (hflip : (crtcs c).pending = some (fb, data)) :
    Sound drm (Function.update crtcs c ⟨some fb, none⟩) (queue ++ [data]) painting i d := by
  have hown := h.flips c fb data hflip
  refine { h with outstanding := ?_, flips := ?_, screen := ?_ }
  · have hcount := h.outstanding
    by_cases hdata : data = i
    · obtain ⟨rfl, -⟩ := hown.own hdata
      subst hdata
      rw [Function.update_self, CrtcState.flying_none]
      rw [CrtcState.flying, hflip] at hcount
      simp only [Option.map_some, Option.toList_some, List.singleton_append, List.count_cons_self]
        at hcount
      simp [hcount]
    · rw [Function.update_of_ne (hown.other hdata).1.symm]
      rw [← List.append_assoc, List.count_append, hcount, List.count_singleton]
      simp [hdata]
  · intro c' fb' data' hflip'
    by_cases hc : c' = c
    · subst hc
      simp at hflip'
    · rw [Function.update_of_ne hc] at hflip'
      exact h.flips c' fb' data' hflip'
  · intro c' b hshown
    by_cases hc : c' = c
    · subst hc
      rw [Function.update_self] at hshown
      have hfb : fb = (d.bufs b).fb := Option.some.inj hshown
      by_cases hdata : data = i
      · obtain ⟨hcrtc, hfront⟩ := hown.own hdata
        have hb : b = d.frontBuf := FlipDev.buf_eq_of_fb h.apart (hfb.symm.trans hfront)
        exact ⟨hcrtc, fun hback => absurd (hback.symm.trans hb) d.backBuf_ne⟩
      · exact absurd hfb ((hown.other hdata).2 b)
    · rw [Function.update_of_ne hc] at hshown ⊢
      exact h.screen c' b hshown

theorem flip (h : Sound drm crtcs queue False i d) (hidle : d.pflipPending = false) :
    Sound drm (Function.update crtcs d.crtc ⟨(crtcs d.crtc).scanout, some (d.back.fb, i)⟩) queue
      False i { d with frontBuf := d.backBuf, pflipPending := true } := by
  have hnone := h.idle hidle
  have hcount := h.outstanding
  refine ⟨h.fits, h.gives, h.apart, ?_, ?_, ?_, h.saved, h.back id, fun _ => ?_⟩
  · rw [hidle, List.count_append] at hcount
    have hqueue : queue.count i = 0 := by
      rw [Bool.toNat_false] at hcount
      omega
    simp [hqueue]
  · intro c fb data hflip
    by_cases hc : c = d.crtc
    · subst hc
      rw [Function.update_self] at hflip
      obtain ⟨rfl, rfl⟩ := Prod.mk.inj (Option.some.inj hflip)
      exact ⟨fun _ => ⟨rfl, rfl⟩, fun hne => absurd rfl hne⟩
    · rw [Function.update_of_ne hc] at hflip
      have hown := h.flips c fb data hflip
      exact ⟨fun hdata => absurd (hown.own hdata).1 hc, hown.other⟩
  · intro c b hshown
    by_cases hc : c = d.crtc
    · subst hc
      exact ⟨rfl, fun _ => by simp⟩
    · rw [Function.update_of_ne hc] at hshown
      exact absurd (h.screen c b hshown).1 hc
  · have hback : ({ d with frontBuf := d.backBuf, pflipPending := true } : FlipDev).backBuf =
        d.frontBuf := FlipDev.backBuf_backBuf rfl
    rw [FlipDev.back, hback]
    exact h.front

theorem flip_other (h : Sound drm crtcs queue painting i d) {j : Nat} {d' : FlipDev} (hij : j ≠ i)
    (happart : d'.Apart d) :
    Sound drm (Function.update crtcs d'.crtc ⟨(crtcs d'.crtc).scanout, some (d'.back.fb, j)⟩) queue
      painting i d := by
  refine { h with outstanding := ?_, flips := ?_, screen := ?_ }
  · rw [Function.update_of_ne happart.crtc.symm]
    exact h.outstanding
  · intro c fb data hflip
    by_cases hc : c = d'.crtc
    · subst hc
      rw [Function.update_self] at hflip
      obtain ⟨rfl, rfl⟩ := Prod.mk.inj (Option.some.inj hflip)
      exact ⟨fun hdata => absurd hdata hij, fun _ => ⟨happart.crtc, happart.fb _⟩⟩
    · rw [Function.update_of_ne hc] at hflip
      exact h.flips c fb data hflip
  · intro c b hshown
    by_cases hc : c = d'.crtc
    · subst hc
      rw [Function.update_self] at hshown ⊢
      exact ⟨(h.screen _ b hshown).1, fun _ => by simp⟩
    · rw [Function.update_of_ne hc] at hshown ⊢
      exact h.screen c b hshown

theorem handled (h : Sound drm crtcs (i :: queue) painting i d) :
    Sound drm crtcs queue painting i { d with pflipPending := false } := by
  have hcount := h.outstanding
  refine ⟨h.fits, h.gives, h.apart, ?_, fun c fb data hflip => ?_, h.screen, h.saved, h.front,
    h.back⟩
  · rw [List.count_append, List.count_cons_self] at hcount
    have hle : d.pflipPending.toNat ≤ 1 := Bool.toNat_le _
    change ((crtcs d.crtc).flying ++ queue).count i = 0
    rw [List.count_append]
    omega
  · have hown := h.flips c fb data hflip
    exact ⟨hown.own, hown.other⟩

theorem store (h : Sound drm crtcs queue painting i d) {map : List UInt8}
    (hmap : map.length = d.back.map.length) (hpaint : painting) :
    Sound drm crtcs queue painting i (d.setBuf d.backBuf { d.back with map := map }) := by
  have hbuf (b : Fin 2) : (d.setBuf d.backBuf { d.back with map := map }).bufs b =
      if b = d.backBuf then { d.back with map := map } else d.bufs b := by
    simp [FlipDev.setBuf, Function.update_apply]
  have hfb (b : Fin 2) : ((d.setBuf d.backBuf { d.back with map := map }).bufs b).fb =
      (d.bufs b).fb := by
    rw [hbuf]
    split_ifs with hb
    · rw [hb, FlipDev.back]
    · rfl
  have hfront : (d.setBuf d.backBuf { d.back with map := map }).front = d.front := by
    rw [FlipDev.front, hbuf]
    exact if_neg d.backBuf_ne.symm
  refine ⟨fun b => ?_, fun b => ?_, ?_, h.outstanding, fun c fb data hflip => ?_,
    fun c b hshown => ?_, h.saved, ?_, fun hnot => absurd hpaint hnot⟩
  · rw [hbuf]
    split_ifs
    · have hfits := h.fits d.backBuf
      exact ⟨hfits.stride, hfits.rows, hfits.size, hmap.trans hfits.map⟩
    · exact h.fits b
  · rw [hfb]
    exact h.gives b
  · rw [hfb, hfb]
    exact h.apart
  · have hown := h.flips c fb data hflip
    constructor
    · rw [hfront]
      exact hown.own
    · intro hdata
      exact ⟨(hown.other hdata).1, fun b => hfb b ▸ (hown.other hdata).2 b⟩
  · exact h.screen c b (hfb b ▸ hshown)
  · rw [hfront]
    exact h.front

end Sound

/-! ## The world -/

/-- The events that have been read and not handled. -/
def Caller.batch : Caller → List Nat
  | .outputs _ => []
  | .events todo _ => todo

namespace Pc

def batch : Pc → List Nat
  | .events todo _ => todo
  | .drawDev _ caller => caller.batch
  | .pixels _ _ caller => caller.batch
  | .flip _ caller => caller.batch
  | _ => []

/-- The program is painting the back buffer of the device. -/
def Painting : Pc → Nat → Prop
  | .pixels i _ _, j => i = j
  | _, _ => False

/-- The program has come to grief. -/
def Dead : Pc → Prop
  | .useAfterFree => True
  | .fault _ => True
  | _ => False

end Pc

namespace World

def queue (w : World) : List Nat := w.pc.batch ++ w.unread

/-- The device waits for no flip. -/
def Idle (w : World) (i : Nat) : Prop := ∀ d, w.mem i = some d → d.pflipPending = false

/-- In the first loop, no device has been flipped whose turn is to come. -/
def Callable (w : World) (i : Nat) : Caller → Prop
  | .outputs todo => (i :: todo).Nodup ∧ ∀ j ∈ todo, w.Idle j
  | .events _ _ => True

/-- The pixels of a frame that are not left to do have their color. -/
structure Partial (todo : List (Nat × Nat)) (d : FlipDev) : Prop where
  rest : ∀ p ∈ todo, p.2 < d.back.width ∧ p.1 < d.back.height
  done : ∀ x y, x < d.back.width → y < d.back.height → (y, x) ∉ todo →
    pixel d.back.toModesetDev d.back.map x y = leBytes 4 d.value

/-- What is special to a place of the program. -/
def Place (drm : Drm) (w : World) : Prop :=
  match w.pc with
  | .setCrtcs todo => todo.Nodup ∧ w.modesetList.Nodup ∧ (∀ i, w.Idle i) ∧
      (∀ c, (w.crtcs c).pending = none) ∧
      ∀ i ∈ todo, ∀ d, w.mem i = some d → ∀ fb, (w.crtcs d.crtc).scanout = some fb → ¬ drm.Gives fb
  | .outputs todo => todo.Nodup ∧ ∀ i ∈ todo, w.Idle i
  | .drawDev i caller => w.Idle i ∧ w.Callable i caller
  | .pixels i todo caller => w.Idle i ∧ w.Callable i caller ∧
      ∀ d, w.mem i = some d → Partial todo d
  | .flip i caller => w.Idle i ∧ w.Callable i caller
  | .read i => ∀ d, w.mem i = some d → d.pflipPending = true
  | _ => True

/-- The invariant. -/
structure Inv (drm : Drm) (w : World) : Prop where
  sound : ∀ i d, w.mem i = some d → Sound drm w.crtcs w.queue (w.pc.Painting i) i d
  apart : ∀ i j d d', w.mem i = some d → w.mem j = some d' → i ≠ j → d.Apart d'
  place : w.Place drm

variable {w : World} {drm : Drm} {i j : Nat} {d d' : FlipDev}

theorem setDev_mem_self : (w.setDev i d).mem i = some d := Function.update_self ..

theorem setDev_mem_of_ne (h : j ≠ i) : (w.setDev i d).mem j = w.mem j := Function.update_of_ne h ..

theorem setDev_cases (h : (w.setDev i d).mem j = some d') :
    j = i ∧ d' = d ∨ j ≠ i ∧ w.mem j = some d' := by
  by_cases hj : j = i
  · subst hj
    rw [setDev_mem_self] at h
    exact Or.inl ⟨rfl, (Option.some.inj h).symm⟩
  · rw [setDev_mem_of_ne hj] at h
    exact Or.inr ⟨hj, h⟩

/-- What a step establishes, unless it ends the program. -/
def After (drm : Drm) (w : World) : Prop := ¬ w.pc.Dead → Inv drm w

theorem after_withDev {f : FlipDev → World} (h : ∀ d, w.mem i = some d → After drm (f d)) :
    After drm (w.withDev i f) := by
  unfold withDev
  split
  · rename_i d hd
    exact h d hd
  · exact fun hlive => absurd trivial hlive

theorem Inv.goto (h : Inv drm w) {pc pc' : Pc} (hpc : w.pc = pc) (hbatch : pc'.batch = pc.batch)
    (hpaint : ∀ i, pc.Painting i → pc'.Painting i) (hplace : (w.goto pc').Place drm) :
    After drm (w.goto pc') := by
  intro _
  refine ⟨fun i d hd => ?_, h.apart, hplace⟩
  have hqueue : (w.goto pc').queue = w.queue := by
    rw [queue, queue, World.goto, hpc, hbatch]
  rw [hqueue]
  apply (h.sound i d hd).repaint
  rw [hpc]
  exact hpaint i

theorem Inv.setDev (h : Inv drm w) {w' : World} (hd : w.mem i = some d)
    (hmem : w'.mem = (w.setDev i d').mem)
    (hself : Sound drm w'.crtcs w'.queue (w'.pc.Painting i) i d')
    (hother : ∀ j dj, j ≠ i → w.mem j = some dj →
      Sound drm w'.crtcs w'.queue (w'.pc.Painting j) j dj)
    (happart : ∀ e : FlipDev, d.Apart e → d'.Apart e) (hplace : w'.Place drm) :
    After drm w' := by
  intro _
  refine ⟨fun j dj hj => ?_, fun j k dj dk hj hk hjk => ?_, hplace⟩
  · rw [hmem] at hj
    rcases setDev_cases hj with ⟨rfl, rfl⟩ | ⟨hne, hold⟩
    · exact hself
    · exact hother j dj hne hold
  · rw [hmem] at hj hk
    rcases setDev_cases hj with ⟨rfl, rfl⟩ | ⟨hne, hold⟩
    · rcases setDev_cases hk with ⟨rfl, -⟩ | ⟨hne', hold'⟩
      · exact absurd rfl hjk
      · exact happart dk (h.apart j k d dk hd hold' hjk)
    · rcases setDev_cases hk with ⟨rfl, rfl⟩ | ⟨hne', hold'⟩
      · exact (happart dj (h.apart k j d dj hd hold hjk.symm)).symm
      · exact h.apart j k dj dk hold hold' hjk

end World

end PerfTools.X
