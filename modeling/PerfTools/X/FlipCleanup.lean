import PerfTools.X.FlipSafety

/-!
# Cleaning up

Where the CRTCs could be read and no read of events fails in modeset_cleanup, the program uses no
device that it has freed, and at its end all devices are freed and no flip is under way. The screens
show what they showed before.
-/

namespace PerfTools.X

open Memory Exec

/-! ## Devices that are used -/

/-- The device that modeset_cleanup has taken from the list and not freed yet. -/
def Waiter.current : Waiter → Option Nat
  | .draw => none
  | .cleanup iter => some iter

namespace Caller

def current : Caller → Option Nat
  | .outputs _ => none
  | .events _ waiter => waiter.current

def todo : Caller → List Nat
  | .outputs todo => todo
  | .events todo _ => todo

end Caller

namespace Pc

def current : Pc → Option Nat
  | .drawDev _ caller => caller.current
  | .pixels _ _ caller => caller.current
  | .flip _ caller => caller.current
  | .events _ waiter => waiter.current
  | .wait i => some i
  | .read i => some i
  | .restore i => some i
  | .destroy i => some i
  | _ => none

/-- The devices that are used from this place on, other than the current one. -/
def needs : Pc → List Nat
  | .setCrtcs todo => todo
  | .outputs todo => todo
  | .drawDev i caller => i :: caller.todo
  | .pixels i _ caller => i :: caller.todo
  | .flip i caller => i :: caller.todo
  | .events todo _ => todo
  | _ => []

/-- The devices whose CRTCs have not been read yet. -/
def unsaved : Pc → List Nat
  | .setCrtcs todo => todo
  | _ => []

/-- The program has waited for the flip of the device. -/
def Settled : Pc → Nat → Prop
  | .restore i, j => i = j
  | .destroy i, j => i = j
  | _, _ => False

end Pc

namespace World

/-- The devices that have not been freed. -/
def live (w : World) : List Nat := w.pc.current.toList ++ w.modesetList

/-- The memory holds the devices of the list and the current one, and nothing refers to another. -/
structure Held (w : World) : Prop where
  mem : ∀ j, j ∈ w.live ↔ (w.mem j).isSome
  nodup : w.live.Nodup
  needs : ∀ j ∈ w.pc.needs, j ∈ w.live
  unread : ∀ j ∈ w.unread, j ∈ w.live
  flying : ∀ c fb data, (w.crtcs c).pending = some (fb, data) → data ∈ w.live
  unsaved : ∀ j d, w.mem j = some d → d.savedCrtc = none → j ∈ w.pc.unsaved
  settled : ∀ j, w.pc.Settled j → w.Idle j
  alive : ¬ w.pc.Dead
  exited : w.pc = .exited → w.modesetList = []

variable {w w' : World} {drm : Drm} {i j : Nat} {d d' : FlipDev}

theorem Held.get (h : Held w) (hi : i ∈ w.live) : ∃ d, w.mem i = some d :=
  Option.isSome_iff_exists.mp ((h.mem i).mp hi)

theorem withDev_eq (hd : w.mem i = some d) (f : FlipDev → World) : w.withDev i f = f d := by
  rw [withDev, hd]

/-- The program goes on elsewhere, also with a device of the list as the current one. -/
theorem Held.move (h : Held w) {list : List Nat} {pc : Pc}
    (hlive : pc.current.toList ++ list = w.live) (hneeds : ∀ j ∈ pc.needs, j ∈ w.live)
    (hunsaved : ∀ j d, w.mem j = some d → d.savedCrtc = none → j ∈ w.pc.unsaved → j ∈ pc.unsaved)
    (hsettled : ∀ j, pc.Settled j → w.Idle j) (halive : ¬ pc.Dead)
    (hexited : pc = .exited → list = []) : Held { w with modesetList := list, pc := pc } := by
  have hsame : ({ w with modesetList := list, pc := pc } : World).live = w.live := hlive
  refine ⟨?_, ?_, ?_, ?_, ?_, fun j d hd hnone => hunsaved j d hd hnone (h.unsaved j d hd hnone),
    hsettled, halive, hexited⟩ <;> rw [hsame]
  · exact h.mem
  · exact h.nodup
  · exact hneeds
  · exact h.unread
  · exact h.flying

theorem Held.goto (h : Held w) {pc : Pc} (hcurrent : pc.current = w.pc.current)
    (hneeds : ∀ j ∈ pc.needs, j ∈ w.live)
    (hunsaved : ∀ j d, w.mem j = some d → d.savedCrtc = none → j ∈ w.pc.unsaved → j ∈ pc.unsaved)
    (hsettled : ∀ j, pc.Settled j → w.Idle j) (halive : ¬ pc.Dead) (hexited : pc ≠ .exited) :
    Held (w.goto pc) :=
  h.move (by rw [live, hcurrent]) hneeds hunsaved hsettled halive fun hpc => absurd hpc hexited

theorem Held.setDev (h : Held w) (hd : w.mem i = some d)
    (hsaved : d'.savedCrtc = none → d.savedCrtc = none)
    (hidle : w.pc.Settled i → d'.pflipPending = false) : Held (w.setDev i d') := by
  refine { h with mem := fun j => ?_, unsaved := fun j e he hnone => ?_, settled := fun j hj => ?_ }
  · rw [show (w.setDev i d').live = w.live from rfl, h.mem]
    by_cases hj : j = i
    · subst hj
      rw [setDev_mem_self, hd]
      rfl
    · rw [setDev_mem_of_ne hj]
  · rcases setDev_cases he with ⟨rfl, rfl⟩ | ⟨-, hold⟩
    · exact h.unsaved j d hd (hsaved hnone)
    · exact h.unsaved j e hold hnone
  · intro e he
    rcases setDev_cases he with ⟨rfl, rfl⟩ | ⟨-, hold⟩
    · exact hidle hj
    · exact h.settled j hj e hold

theorem Held.setCrtcs (h : Held w) {crtcs : UInt32 → CrtcState}
    (hflying : ∀ c fb data, (crtcs c).pending = some (fb, data) → data ∈ w.live) :
    Held { w with crtcs := crtcs } :=
  { h with flying := hflying }

/-! ## Steps -/

theorem held_vblank (h : Held w) (c : UInt32) : Held (w.vblank c) := by
  unfold vblank
  split
  · exact h
  · rename_i fb data hflip
    refine { h with unread := fun j hj => ?_, flying := fun c' fb' data' hflip' => ?_ }
    · rcases List.mem_append.mp hj with hold | hnew
      · exact h.unread j hold
      · rw [List.mem_singleton.mp hnew]
        exact h.flying c fb data hflip
    · by_cases hc : c' = c
      · subst hc
        simp [setCrtcState] at hflip'
      · simp only [setCrtcState, Function.update_of_ne hc] at hflip'
        exact h.flying c' fb' data' hflip'

theorem held_stepSetCrtc (h : Held w) {todo : List Nat} (hpc : w.pc = .setCrtcs (i :: todo))
    (ok : Bool) : Held (w.stepSetCrtc i todo true ok) := by
  have hneeds (j : Nat) (hj : j ∈ i :: todo) : j ∈ w.live := h.needs j (by rw [hpc]; exact hj)
  obtain ⟨d, hd⟩ := h.get (hneeds i List.mem_cons_self)
  rw [stepSetCrtc, withDev_eq hd]
  have hsaved : Held (w.setDev i { d with
      savedCrtc := some ⟨d.crtc, (w.crtcs d.crtc).scanout⟩ }) :=
    h.setDev hd (fun hnone => by cases hnone) (fun hset => by rw [hpc] at hset; exact hset.elim)
  -- Whatever the CRTC shows now, no flip is asked for.
  have hgoto {v : World} (hv : Held v) (hpcv : v.pc = .setCrtcs (i :: todo))
      (hlive : v.live = w.live) (hsome : ∀ d, v.mem i = some d → d.savedCrtc ≠ none) :
      Held (v.goto (.setCrtcs todo)) := by
    refine hv.goto (by rw [hpcv]; rfl) ?_ ?_ (fun _ => False.elim) id (by simp)
    · intro j hj
      rw [hlive]
      exact hneeds j (List.mem_cons_of_mem _ hj)
    · intro j e he hnone hj
      rw [hpcv] at hj
      rcases List.mem_cons.mp hj with rfl | hj
      · exact absurd hnone (hsome e he)
      · exact hj
  have hsome (e : FlipDev) (he : (w.setDev i { d with
      savedCrtc := some ⟨d.crtc, (w.crtcs d.crtc).scanout⟩ }).mem i = some e) :
      e.savedCrtc ≠ none := by
    rw [setDev_mem_self] at he
    obtain rfl := Option.some.inj he
    exact Option.some_ne_none _
  cases ok
  · exact hgoto hsaved hpc rfl hsome
  · refine hgoto (hsaved.setCrtcs fun c fb data hflip => ?_) hpc rfl hsome
    by_cases hc : c = d.crtc
    · subst hc
      rw [Function.update_self] at hflip
      exact h.flying _ _ _ hflip
    · rw [Function.update_of_ne hc] at hflip
      exact h.flying _ _ _ hflip

theorem Held.goto_of_saved (h : Held w) {pc : Pc} (hunsaved : w.pc.unsaved = [])
    (hcurrent : pc.current = w.pc.current) (hneeds : ∀ j ∈ pc.needs, j ∈ w.live)
    (hsettled : ∀ j, pc.Settled j → w.Idle j) (halive : ¬ pc.Dead) (hexited : pc ≠ .exited) :
    Held (w.goto pc) := by
  refine h.goto hcurrent hneeds (fun j d hd hnone hj => ?_) hsettled halive hexited
  rw [hunsaved] at hj
  exact absurd hj List.not_mem_nil

theorem held_allSet (h : Held w) (hpc : w.pc = .setCrtcs []) :
    Held (w.goto (.outputs w.modesetList)) := by
  refine h.goto_of_saved (by rw [hpc]; rfl) (by rw [hpc]; rfl) (fun j hj => ?_)
    (fun _ => False.elim) id (by simp)
  exact List.mem_append_right _ hj

theorem held_stepRandomStart (h : Held w) {todo : List Nat} (hpc : w.pc = .outputs (i :: todo))
    (r g b : Nat) : Held (w.stepRandomStart i todo r g b) := by
  have hneeds (j : Nat) (hj : j ∈ i :: todo) : j ∈ w.live := h.needs j (by rw [hpc]; exact hj)
  obtain ⟨d, hd⟩ := h.get (hneeds i List.mem_cons_self)
  rw [stepRandomStart, withDev_eq hd]
  have hset {d' : FlipDev} (hsaved : d'.savedCrtc = d.savedCrtc) : Held (w.setDev i d') :=
    h.setDev hd (fun hnone => hsaved ▸ hnone) (fun hset => by rw [hpc] at hset; exact hset.elim)
  refine (hset ?_).goto_of_saved ?_ ?_ hneeds (fun _ => False.elim) id (by simp)
  · rfl
  · exact congrArg Pc.unsaved hpc
  · exact (congrArg Pc.current hpc).symm

theorem held_stepRandomNext (h : Held w) {caller : Caller} (hpc : w.pc = .drawDev i caller)
    (r g b : Nat) : Held (w.stepRandomNext i caller r g b) := by
  have hneeds (j : Nat) (hj : j ∈ i :: caller.todo) : j ∈ w.live :=
    h.needs j (by rw [hpc]; exact hj)
  obtain ⟨d, hd⟩ := h.get (hneeds i List.mem_cons_self)
  rw [stepRandomNext, withDev_eq hd]
  have hset : Held (w.setDev i (d.recolor r g b)) :=
    h.setDev hd id (fun hset => by rw [hpc] at hset; exact hset.elim)
  refine hset.goto_of_saved ?_ ?_ hneeds (fun _ => False.elim) id (by simp)
  · exact congrArg Pc.unsaved hpc
  · exact (congrArg Pc.current hpc).symm

theorem held_stepStore (hinv : Inv drm w) (h : Held w) {j k : Nat} {todo : List (Nat × Nat)}
    {caller : Caller} (hpc : w.pc = .pixels i ((j, k) :: todo) caller) :
    Held (w.stepStore i j k todo caller) := by
  have hplace := hinv.place
  unfold Place at hplace
  rw [hpc] at hplace
  have hneeds (j : Nat) (hj : j ∈ i :: caller.todo) : j ∈ w.live :=
    h.needs j (by rw [hpc]; exact hj)
  obtain ⟨d, hd⟩ := h.get (hneeds i List.mem_cons_self)
  obtain ⟨map, hrun, -, -⟩ :=
    store_partial ((hinv.sound i d hd).fits d.backBuf) (hplace.2.2 d hd)
  rw [stepStore, withDev_eq hd, hrun]
  have hset : Held (w.setDev i (d.setBuf d.backBuf { d.back with map := map })) :=
    h.setDev hd id (fun hset => by rw [hpc] at hset; exact hset.elim)
  refine hset.goto_of_saved ?_ ?_ hneeds (fun _ => False.elim) id (by simp)
  · exact congrArg Pc.unsaved hpc
  · exact (congrArg Pc.current hpc).symm

theorem held_painted (h : Held w) {caller : Caller} (hpc : w.pc = .pixels i [] caller) :
    Held (w.goto (.flip i caller)) := by
  refine h.goto_of_saved (by rw [hpc]; rfl) (by rw [hpc]; rfl) (fun j hj => ?_)
    (fun _ => False.elim) id (by simp)
  exact h.needs j (by rw [hpc]; exact hj)

theorem held_stepPageFlip (h : Held w) {caller : Caller} (hpc : w.pc = .flip i caller)
    (ok : Bool) : Held (w.stepPageFlip i caller ok) := by
  have hneeds (j : Nat) (hj : j ∈ i :: caller.todo) : j ∈ w.live :=
    h.needs j (by rw [hpc]; exact hj)
  have hi := hneeds i List.mem_cons_self
  obtain ⟨d, hd⟩ := h.get hi
  -- Where modeset_draw_dev returns to, the device is not needed any more.
  have hafter {v : World} (hv : Held v) (hpcv : v.pc = .flip i caller) (hlive : v.live = w.live) :
      Held (v.goto caller.after) := by
    refine hv.goto_of_saved (by rw [hpcv]; rfl) ?_ ?_ ?_ ?_ ?_
    · rw [hpcv]
      cases caller <;> rfl
    · intro j hj
      rw [hlive]
      apply hneeds j
      cases caller <;> exact List.mem_cons_of_mem _ hj
    · intro j hj
      cases caller <;> exact hj.elim
    · cases caller <;> exact id
    · cases caller <;> simp [Caller.after]
  rw [stepPageFlip, withDev_eq hd]
  dsimp only
  split_ifs
  · apply hafter
    · have hflip : Held (w.setCrtcState d.crtc
          ⟨(w.crtcs d.crtc).scanout, some (d.back.fb, i)⟩) := by
        apply h.setCrtcs
        intro c fb data hflip
        by_cases hc : c = d.crtc
        · subst hc
          rw [Function.update_self] at hflip
          obtain ⟨-, rfl⟩ := Prod.mk.inj (Option.some.inj hflip)
          exact hi
        · rw [Function.update_of_ne hc] at hflip
          exact h.flying _ _ _ hflip
      refine hflip.setDev hd ?_ fun hset => ?_
      · exact id
      change w.pc.Settled i at hset
      rw [hpc] at hset
      exact hset.elim
    · exact hpc
    · rfl
  · exact hafter h hpc rfl

theorem held_stepHandleEvent (h : Held w) (hunsaved : w.pc.unsaved = []) (n : Nat)
    {waiter : Waiter} (hcurrent : waiter.current = w.pc.current) :
    Held (w.stepHandleEvent n waiter) := by
  have hread : Held { w with unread := w.unread.drop n } :=
    { h with unread := fun j hj => h.unread j (List.mem_of_mem_drop hj) }
  refine hread.goto_of_saved hunsaved hcurrent (fun j hj => ?_) (fun _ => False.elim) id (by simp)
  exact h.unread j (List.mem_of_mem_take hj)

theorem held_stepEvent (h : Held w) {todo : List Nat} {waiter : Waiter}
    (hpc : w.pc = .events (i :: todo) waiter) : Held (w.stepEvent i todo waiter) := by
  have hneeds (j : Nat) (hj : j ∈ i :: todo) : j ∈ w.live := h.needs j (by rw [hpc]; exact hj)
  obtain ⟨d, hd⟩ := h.get (hneeds i List.mem_cons_self)
  have hset : Held (w.setDev i { d with pflipPending := false }) := h.setDev hd id fun _ => rfl
  rw [stepEvent, withDev_eq hd]
  split_ifs
  · refine hset.goto_of_saved (congrArg Pc.unsaved hpc) (congrArg Pc.current hpc).symm ?_
      (fun _ => False.elim) id (by simp)
    exact fun j hj => hneeds j (List.mem_cons_of_mem _ hj)
  · exact hset.goto_of_saved (congrArg Pc.unsaved hpc) (congrArg Pc.current hpc).symm hneeds
      (fun _ => False.elim) id (by simp)

theorem held_handled (h : Held w) {waiter : Waiter} (hpc : w.pc = .events [] waiter) :
    Held (w.goto waiter.after) := by
  refine h.goto_of_saved (by rw [hpc]; rfl) ?_ ?_ ?_ ?_ ?_
  · rw [hpc]
    cases waiter <;> rfl
  · intro j hj
    cases waiter <;> exact absurd hj List.not_mem_nil
  · intro j hj
    cases waiter <;> exact hj.elim
  · cases waiter <;> exact id
  · cases waiter <;> simp [Waiter.after]

theorem held_stepCleanup (h : Held w) (hpc : w.pc = .cleanup) : Held w.stepCleanup := by
  have hcurrent : w.live = w.modesetList := by
    rw [live, hpc]
    rfl
  have hunsaved : w.pc.unsaved = [] := by rw [hpc]; rfl
  have hsaved {v : World} (hv : v.pc = w.pc) (j : Nat) (hj : j ∈ v.pc.unsaved) {P : Prop} : P := by
    rw [hv, hunsaved] at hj
    exact absurd hj List.not_mem_nil
  unfold stepCleanup
  split
  · rename_i hnil
    exact h.move hcurrent.symm (fun j hj => absurd hj List.not_mem_nil)
      (fun j _ _ _ hj => hsaved rfl j hj) (fun _ => False.elim) id fun _ => hnil
  · rename_i i rest hcons
    have hi : i ∈ w.live := by
      rw [hcurrent, hcons]
      exact List.mem_cons_self
    obtain ⟨d, hd⟩ := h.get hi
    have hset : Held (w.setDev i { d with cleanup := true }) :=
      h.setDev hd id (fun hset => by rw [hpc] at hset; exact hset.elim)
    rw [withDev_eq hd]
    exact hset.move (hcurrent.trans hcons).symm (fun j hj => absurd hj List.not_mem_nil)
      (fun j _ _ _ hj => hsaved rfl j hj) (fun _ => False.elim) id fun hexited => by cases hexited

theorem held_stepWait (h : Held w) (hpc : w.pc = .wait i) : Held (w.stepWait i) := by
  obtain ⟨d, hd⟩ := h.get (i := i) (by rw [live, hpc]; exact List.mem_cons_self)
  rw [stepWait, withDev_eq hd]
  split_ifs with hpending
  · exact h.goto_of_saved (by rw [hpc]; rfl) (by rw [hpc]; rfl)
      (fun j hj => absurd hj List.not_mem_nil) (fun _ => False.elim) id (by simp)
  · refine h.goto_of_saved (by rw [hpc]; rfl) (by rw [hpc]; rfl)
      (fun j hj => absurd hj List.not_mem_nil) (fun j hj e he => ?_) id (by simp)
    obtain rfl : i = j := hj
    obtain rfl := Option.some.inj (hd.symm.trans he)
    simpa using hpending

theorem held_stepRestore (h : Held w) (hpc : w.pc = .restore i) (ok : Bool) :
    Held (w.stepRestore i ok) := by
  obtain ⟨d, hd⟩ := h.get (i := i) (by rw [live, hpc]; exact List.mem_cons_self)
  have hidle := h.settled i (by rw [hpc]; exact rfl) d hd
  have hgoto {v : World} (hv : Held v) (hpcv : v.pc = .restore i) : Held (v.goto (.destroy i)) := by
    refine hv.goto_of_saved (by rw [hpcv]; rfl) (by rw [hpcv]; rfl)
      (fun j hj => absurd hj List.not_mem_nil) (fun j hj => ?_) id (by simp)
    apply hv.settled j
    rw [hpcv]
    exact hj
  rw [stepRestore, withDev_eq hd, if_neg (by simp [hidle])]
  cases hsaved : d.savedCrtc with
  | none =>
    have hunsaved := h.unsaved i d hd hsaved
    rw [hpc] at hunsaved
    exact absurd hunsaved List.not_mem_nil
  | some saved =>
    cases ok
    · exact hgoto h hpc
    · refine hgoto (h.setCrtcs fun c fb data hflip => ?_) hpc
      by_cases hc : c = saved.crtcId
      · subst hc
        rw [Function.update_self] at hflip
        exact h.flying _ _ _ hflip
      · rw [Function.update_of_ne hc] at hflip
        exact h.flying _ _ _ hflip

/-- A device whose flips have all been handled is freed, and nothing refers to it. -/
theorem held_stepDestroy (hinv : Inv drm w) (h : Held w) (hpc : w.pc = .destroy i) :
    Held (w.stepDestroy i) := by
  have hlive : w.live = i :: w.modesetList := by
    rw [live, hpc]
    rfl
  obtain ⟨d, hd⟩ := h.get (i := i) (by rw [hlive]; exact List.mem_cons_self)
  have hidle := h.settled i (by rw [hpc]; exact rfl) d hd
  have hsound := hinv.sound i d hd
  have hqueue : w.queue = w.unread := by
    rw [queue, hpc]
    rfl
  obtain ⟨hi, hnodup⟩ := List.nodup_cons.mp (hlive ▸ h.nodup)
  have hlist {j : Nat} (hj : j ∈ w.live) (hne : j ≠ i) : j ∈ w.modesetList := by
    rw [hlive] at hj
    exact (List.mem_cons.mp hj).resolve_left hne
  rw [stepDestroy, withDev_eq hd]
  refine ⟨fun j => ?_, hnodup, fun j hj => absurd hj List.not_mem_nil, fun j hj => ?_,
    fun c fb data hflip => ?_, fun j e he hnone => ?_, fun _ => False.elim, id,
    fun hexited => by cases hexited⟩
  · change j ∈ w.modesetList ↔ (Function.update w.mem i none j).isSome
    by_cases hj : j = i
    · subst hj
      simp [hi]
    · rw [Function.update_of_ne hj, ← h.mem, hlive, List.mem_cons]
      exact ⟨Or.inr, fun hor => hor.resolve_left hj⟩
  · apply hlist (h.unread j hj)
    rintro rfl
    have hcount := hsound.outstanding
    rw [hidle, Bool.toNat_false, List.count_eq_zero, hqueue] at hcount
    exact hcount (List.mem_append_right _ hj)
  · have hold : (w.crtcs c).pending = some (fb, data) := by
      rw [← hflip]
      exact ((rmFb_crtcs _ _ c).1.trans (rmFb_crtcs _ _ c).1).symm
    apply hlist (h.flying c fb data hold)
    intro hdata
    obtain ⟨rfl, -⟩ := (hsound.flips c fb data hold).own hdata
    rw [hsound.idle hidle] at hold
    cases hold
  · change Function.update w.mem i none j = some e at he
    by_cases hj : j = i
    · subst hj
      rw [Function.update_self] at he
      cases he
    · rw [Function.update_of_ne hj] at he
      have hold := h.unsaved j e he hnone
      rw [hpc] at hold
      exact absurd hold List.not_mem_nil

/-! ## Screens -/

/-- A CRTC shows what it showed before, or a buffer of a device, or nothing where a CRTC could not
be restored. What a device has saved is what its CRTC showed before. -/
structure Screens (before : UInt32 → CrtcState) (mayFail : Prop) (w : World) : Prop where
  saved : ∀ j d s, w.mem j = some d → d.savedCrtc = some s →
    s.bufferId = (before d.crtc).scanout
  untouched : ∀ j ∈ w.pc.unsaved, ∀ d, w.mem j = some d →
    (w.crtcs d.crtc).scanout = (before d.crtc).scanout
  shown : ∀ c, (w.crtcs c).scanout = (before c).scanout ∨
    (∃ j d b, w.mem j = some d ∧ (w.crtcs c).scanout = some (d.bufs b).fb) ∨
    mayFail ∧ (w.crtcs c).scanout = none
  restored : ∀ j d, w.pc = .destroy j → w.mem j = some d →
    (w.crtcs d.crtc).scanout = (before d.crtc).scanout ∨ mayFail

variable {before : UInt32 → CrtcState} {mayFail : Prop}

theorem Screens.move (h : Screens before mayFail w) {list unread : List Nat} {pc : Pc}
    (hunsaved : ∀ j ∈ pc.unsaved, j ∈ w.pc.unsaved)
    (hrestored : ∀ j d, pc = .destroy j → w.mem j = some d →
      (w.crtcs d.crtc).scanout = (before d.crtc).scanout ∨ mayFail) :
    Screens before mayFail ⟨w.mem, list, w.crtcs, unread, pc⟩ :=
  { h with
    untouched := fun j hj => h.untouched j (hunsaved j hj)
    restored := hrestored }

theorem Screens.leads (h : Screens before mayFail w) {list unread : List Nat} {pc : Pc}
    (hunsaved : pc.unsaved = []) (hdestroy : ∀ j, pc ≠ .destroy j) :
    Screens before mayFail ⟨w.mem, list, w.crtcs, unread, pc⟩ := by
  refine h.move (fun j hj => ?_) fun j _ hpc => absurd hpc (hdestroy j)
  rw [hunsaved] at hj
  exact absurd hj List.not_mem_nil

theorem Screens.setDev (h : Screens before mayFail w) (hd : w.mem i = some d)
    (hfb : ∀ b, (d'.bufs b).fb = (d.bufs b).fb) (hcrtc : d'.crtc = d.crtc)
    (hsaved : ∀ s, d'.savedCrtc = some s → s.bufferId = (before d.crtc).scanout) :
    Screens before mayFail (w.setDev i d') := by
  have hcase {j : Nat} {e : FlipDev} (he : (w.setDev i d').mem j = some e) :
      ∃ e', w.mem j = some e' ∧ e.crtc = e'.crtc := by
    rcases setDev_cases he with ⟨rfl, rfl⟩ | ⟨-, hold⟩
    · exact ⟨d, hd, hcrtc⟩
    · exact ⟨e, hold, rfl⟩
  refine ⟨fun j e s he hs => ?_, fun j hj e he => ?_, fun c => ?_, fun j e hpc he => ?_⟩
  · rcases setDev_cases he with ⟨rfl, rfl⟩ | ⟨-, hold⟩
    · rw [hcrtc]
      exact hsaved s hs
    · exact h.saved j e s hold hs
  · obtain ⟨e', he', hsame⟩ := hcase he
    rw [hsame]
    exact h.untouched j hj e' he'
  · refine (h.shown c).imp_right fun hshown => hshown.imp_left ?_
    rintro ⟨j, e, b, he, hscanout⟩
    by_cases hj : j = i
    · subst hj
      obtain rfl := Option.some.inj (hd.symm.trans he)
      exact ⟨j, d', b, setDev_mem_self, (hfb b).symm ▸ hscanout⟩
    · exact ⟨j, e, b, (setDev_mem_of_ne hj).trans he, hscanout⟩
  · obtain ⟨e', he', hsame⟩ := hcase he
    rw [hsame]
    exact h.restored j e' hpc he'

theorem setBuf_fb {map : List UInt8} (b : Fin 2) :
    ((d.setBuf d.backBuf { d.back with map := map }).bufs b).fb = (d.bufs b).fb := by
  by_cases hb : b = d.backBuf
  · subst hb
    simp [FlipDev.setBuf, FlipDev.back]
  · simp [FlipDev.setBuf, Function.update_of_ne hb]

theorem screens_vblank (hinv : Inv drm w) (hheld : Held w) (h : Screens before mayFail w)
    (c : UInt32) : Screens before mayFail (w.vblank c) := by
  unfold vblank
  split
  · exact h
  · rename_i fb data hflip
    obtain ⟨d, hd⟩ := hheld.get (hheld.flying c fb data hflip)
    obtain ⟨rfl, rfl⟩ := ((hinv.sound data d hd).flips c fb data hflip).own rfl
    refine ⟨h.saved, fun j hj e he => ?_, fun c => ?_, fun j e hpc he => ?_⟩
    · have hplace := hinv.place
      unfold Place at hplace
      change j ∈ w.pc.unsaved at hj
      cases hpc : w.pc with
      | setCrtcs todo =>
        rw [hpc] at hplace
        rw [hplace.2.2.2.1] at hflip
        cases hflip
      | _ =>
        rw [hpc] at hj
        exact absurd hj List.not_mem_nil
    · by_cases hc : c = d.crtc
      · subst hc
        exact Or.inr (Or.inl ⟨data, d, d.frontBuf, hd, by simp [setCrtcState, FlipDev.front]⟩)
      · simpa only [setCrtcState, Function.update_of_ne hc] using h.shown c
    · have hpc' : w.pc = .destroy j := hpc
      have hidle := (hinv.sound j e he).idle (hheld.settled j (by rw [hpc']; exact rfl) e he)
      have hne : e.crtc ≠ d.crtc := by
        intro hsame
        rw [hsame, hflip] at hidle
        cases hidle
      simpa only [setCrtcState, Function.update_of_ne hne] using h.restored j e hpc' he

theorem screens_stepSetCrtc (hinv : Inv drm w) (h : Screens before mayFail w) {todo : List Nat}
    (hpc : w.pc = .setCrtcs (i :: todo)) (hd : w.mem i = some d) (saved ok : Bool) :
    Screens before mayFail (w.stepSetCrtc i todo saved ok) := by
  have hplace := hinv.place
  unfold Place at hplace
  rw [hpc] at hplace
  obtain ⟨hi, -⟩ := List.nodup_cons.mp hplace.1
  have huntouched (j : Nat) (hj : j ∈ i :: todo) : j ∈ w.pc.unsaved := by
    rw [hpc]
    exact hj
  rw [stepSetCrtc, withDev_eq hd]
  have hset : Screens before mayFail (w.setDev i { d with
      savedCrtc := if saved then some ⟨d.crtc, (w.crtcs d.crtc).scanout⟩ else none }) := by
    refine h.setDev hd (fun _ => ?_) ?_ fun s hs => ?_
    · rfl
    · rfl
    · dsimp only at hs
      split_ifs at hs
      obtain rfl := Option.some.inj hs
      exact h.untouched i (huntouched i List.mem_cons_self) d hd
  dsimp only
  cases ok
  · refine hset.move (fun j hj => ?_) fun j e hj => by cases hj
    exact huntouched j (List.mem_cons_of_mem _ hj)
  · refine ⟨hset.saved, fun j hj e he => ?_, fun c => ?_, fun j e hj => by cases hj⟩
    · rcases setDev_cases he with ⟨rfl, -⟩ | ⟨hne, hold⟩
      · exact absurd hj hi
      · have hcrtc := (hinv.apart j i e d hold hd hne).crtc
        have huntouched := h.untouched j (huntouched j (List.mem_cons_of_mem _ hj)) e hold
        simpa only [World.goto, setCrtcState, World.setDev, if_true, Function.update_of_ne hcrtc]
          using huntouched
    · by_cases hc : c = d.crtc
      · subst hc
        refine Or.inr (Or.inl ⟨i, _, d.frontBuf, setDev_mem_self, ?_⟩)
        simp [World.goto, setCrtcState, FlipDev.front]
      · simpa only [World.goto, setCrtcState, if_true, Function.update_of_ne hc] using hset.shown c

theorem screens_stepPageFlip (h : Screens before mayFail w) {caller : Caller} (hd : w.mem i = some d)
    (ok : Bool) : Screens before mayFail (w.stepPageFlip i caller ok) := by
  have hunsaved : caller.after.unsaved = [] := by cases caller <;> rfl
  have hdestroy (j : Nat) : caller.after ≠ .destroy j := by
    cases caller <;> simp [Caller.after]
  rw [stepPageFlip, withDev_eq hd]
  dsimp only
  split_ifs
  · have hscanout (c : UInt32) : ((w.setCrtcState d.crtc
        ⟨(w.crtcs d.crtc).scanout, some (d.back.fb, i)⟩).crtcs c).scanout = (w.crtcs c).scanout := by
      by_cases hc : c = d.crtc
      · subst hc
        simp [setCrtcState]
      · simp [setCrtcState, Function.update_of_ne hc]
    have hflip : Screens before mayFail (w.setCrtcState d.crtc
        ⟨(w.crtcs d.crtc).scanout, some (d.back.fb, i)⟩) := by
      refine ⟨h.saved, fun j hj e he => ?_, fun c => ?_, fun j e hpc he => ?_⟩
      · rw [hscanout]
        exact h.untouched j hj e he
      · rw [hscanout]
        exact h.shown c
      · rw [hscanout]
        exact h.restored j e hpc he
    refine Screens.leads (hflip.setDev hd (fun _ => ?_) ?_ fun s hs => ?_) hunsaved hdestroy
    · rfl
    · rfl
    · exact h.saved i d s hd hs
  · exact h.leads hunsaved hdestroy

theorem screens_stepRestore (hinv : Inv drm w) (hheld : Held w) (h : Screens before mayFail w)
    (hpc : w.pc = .restore i) (hd : w.mem i = some d) (ok : Bool) (hok : ok = false → mayFail) :
    Screens before mayFail (w.stepRestore i ok) := by
  have hidle := hheld.settled i (by rw [hpc]; exact rfl) d hd
  rw [stepRestore, withDev_eq hd, if_neg (by simp [hidle])]
  cases hsaved : d.savedCrtc with
  | none =>
    have hunsaved := hheld.unsaved i d hd hsaved
    rw [hpc] at hunsaved
    exact absurd hunsaved List.not_mem_nil
  | some saved =>
    cases ok
    · exact h.move (fun j hj => absurd hj List.not_mem_nil) fun _ _ _ _ => Or.inr (hok rfl)
    · have hcrtc := ((hinv.sound i d hd).saved saved hsaved).1
      have hbefore := h.saved i d saved hd hsaved
      rw [← hcrtc] at hbefore
      refine ⟨h.saved, fun j hj => absurd hj List.not_mem_nil, fun c => ?_, fun j e hj he => ?_⟩
      · by_cases hc : c = saved.crtcId
        · subst hc
          exact Or.inl (by simpa [World.goto, setCrtcState] using hbefore)
        · simpa only [World.goto, setCrtcState, if_true, Function.update_of_ne hc] using h.shown c
      · obtain rfl := Pc.destroy.inj hj
        obtain rfl := Option.some.inj (hd.symm.trans he)
        rw [← hcrtc]
        exact Or.inl (by simpa [World.goto, setCrtcState] using hbefore)

/-- Removing a framebuffer turns off the CRTC that shows it, and no other. -/
theorem rmFb_scanout (w : World) (fb c : UInt32) :
    ((w.rmFb fb).crtcs c).scanout =
      if (w.crtcs c).scanout = some fb then none else (w.crtcs c).scanout := by
  unfold rmFb
  dsimp only
  split_ifs <;> rfl

theorem screens_stepDestroy (hinv : Inv drm w) (h : Screens before mayFail w)
    (hbefore : Quiet drm before) (hpc : w.pc = .destroy i) (hd : w.mem i = some d) :
    Screens before mayFail (w.stepDestroy i) := by
  have hsound := hinv.sound i d hd
  rw [stepDestroy, withDev_eq hd]
  have hmem {j : Nat} {e : FlipDev} (he : Function.update w.mem i none j = some e) :
      w.mem j = some e := by
    by_cases hj : j = i
    · subst hj
      rw [Function.update_self] at he
      cases he
    · rwa [Function.update_of_ne hj] at he
  refine ⟨fun j e s he => h.saved j e s (hmem he), fun j hj => absurd hj List.not_mem_nil,
    fun c => ?_, fun j e hj => by cases hj⟩
  -- What is shown and is no buffer of the device stays.
  have hkept (hnot : ∀ b, (w.crtcs c).scanout ≠ some (d.bufs b).fb) :
      (((w.rmFb (d.bufs 1).fb).rmFb (d.bufs 0).fb).crtcs c).scanout = (w.crtcs c).scanout := by
    rw [rmFb_scanout, rmFb_scanout, if_neg (hnot 1), if_neg (hnot 0)]
  have hforeign (hshown : (w.crtcs c).scanout = (before c).scanout) (b : Fin 2) :
      (w.crtcs c).scanout ≠ some (d.bufs b).fb :=
    fun hfb => hbefore.scanout c _ (hshown.symm.trans hfb) (hsound.gives b)
  dsimp only
  rcases h.shown c with hshown | ⟨j, e, b, he, hshown⟩ | ⟨hfail, hnone⟩
  · rw [hkept (hforeign hshown)]
    exact Or.inl hshown
  · by_cases hj : j = i
    · subst hj
      obtain rfl := Option.some.inj (hd.symm.trans he)
      obtain ⟨rfl, -⟩ := hsound.screen c b hshown
      refine (h.restored j d hpc hd).elim (fun hrestored => ?_)
        fun hfail => Or.inr (Or.inr ⟨hfail, ?_⟩)
      · exact absurd hshown (hforeign hrestored b)
      · have hcases : b = 0 ∨ b = 1 := by
          clear hshown
          revert b
          decide
        rw [rmFb_scanout, rmFb_scanout, hshown]
        rcases hcases with rfl | rfl
        · rw [if_neg fun heq => hsound.apart (Option.some.inj heq), if_pos rfl]
        · rw [if_pos rfl, if_neg (by simp)]
    · rw [hkept fun b' hfb => (hinv.apart j i e d he hd hj).fb b b'
        (Option.some.inj (hshown.symm.trans hfb))]
      exact Or.inr (Or.inl ⟨j, e, b, (Function.update_of_ne hj ..).trans he, hshown⟩)
  · rw [hkept fun b hfb => by rw [hnone] at hfb; cases hfb]
    exact Or.inr (Or.inr ⟨hfail, hnone⟩)

/-! ## Runs -/

/-- The CRTCs can be read, no read of events fails in modeset_cleanup, and restoring a CRTC fails
only if it may. -/
def Succeeds (mayFail : Prop) (w : World) : Action → Prop
  | .setCrtc saved _ => saved = true
  | .handleFails => w.pc = .select
  | .restoreCrtc ok => ok = false → mayFail
  | _ => True

theorem held_step (hinv : Inv drm w) (h : Held w) {a : Action} (ha : Succeeds mayFail w a)
    (hstep : w.step a = some w') : Held w' := by
  cases step_cases hstep with
  | vblank c => exact held_vblank h c
  | setCrtc saved ok hpc =>
    obtain rfl : saved = true := ha
    exact held_stepSetCrtc h hpc ok
  | allSet hpc => exact held_allSet h hpc
  | randomStart r g b hpc => exact held_stepRandomStart h hpc r g b
  | allDrawn hpc =>
    exact h.goto_of_saved (by rw [hpc]; rfl) (by rw [hpc]; rfl)
      (fun j hj => absurd hj List.not_mem_nil) (fun _ => False.elim) id (by simp)
  | randomNext r g b hpc => exact held_stepRandomNext h hpc r g b
  | store hpc => exact held_stepStore hinv h hpc
  | painted hpc => exact held_painted h hpc
  | pageFlip ok hpc => exact held_stepPageFlip h hpc ok
  | drawEvents n hpc =>
    exact held_stepHandleEvent h (by rw [hpc]; rfl) n (by rw [hpc]; rfl)
  | drawFails hpc => exact h
  | leave hpc =>
    exact h.goto_of_saved (by rw [hpc]; rfl) (by rw [hpc]; rfl)
      (fun j hj => absurd hj List.not_mem_nil) (fun _ => False.elim) id (by simp)
  | event hpc => exact held_stepEvent h hpc
  | handled hpc => exact held_handled h hpc
  | cleanup hpc => exact held_stepCleanup h hpc
  | wait hpc => exact held_stepWait h hpc
  | waitEvents n hpc =>
    exact held_stepHandleEvent h (by rw [hpc]; rfl) n (by rw [hpc]; rfl)
  | waitFails hpc =>
    have hselect : w.pc = .select := ha
    rw [hpc] at hselect
    cases hselect
  | restore ok hpc => exact held_stepRestore h hpc ok
  | destroy hpc => exact held_stepDestroy hinv h hpc

theorem screens_step (hinv : Inv drm w) (hheld : Held w) (h : Screens before mayFail w)
    (hbefore : Quiet drm before) {a : Action} (ha : Succeeds mayFail w a)
    (hstep : w.step a = some w') : Screens before mayFail w' := by
  have hneeds {i : Nat} {pc : Pc} (hpc : w.pc = pc) (hi : i ∈ pc.needs) : ∃ d, w.mem i = some d :=
    hheld.get (hheld.needs i (hpc ▸ hi))
  have hcurrent {i : Nat} {pc : Pc} (hpc : w.pc = pc) (hi : pc.current = some i) :
      ∃ d, w.mem i = some d :=
    hheld.get (by rw [live, hpc, hi]; exact List.mem_cons_self)
  have hset {i : Nat} {d d' : FlipDev} (hd : w.mem i = some d) (hsaved : d'.savedCrtc = d.savedCrtc)
      (hfb : ∀ b, (d'.bufs b).fb = (d.bufs b).fb) (hcrtc : d'.crtc = d.crtc) :
      Screens before mayFail (w.setDev i d') :=
    h.setDev hd hfb hcrtc fun s hs => h.saved i d s hd (hsaved ▸ hs)
  cases step_cases hstep with
  | vblank c => exact screens_vblank hinv hheld h c
  | setCrtc saved ok hpc =>
    obtain ⟨d, hd⟩ := hneeds hpc List.mem_cons_self
    exact screens_stepSetCrtc hinv h hpc hd saved ok
  | allSet hpc => exact h.leads rfl (by simp)
  | randomStart r g b hpc =>
    obtain ⟨d, hd⟩ := hneeds hpc List.mem_cons_self
    rw [stepRandomStart, withDev_eq hd]
    refine (hset hd ?_ ?_ ?_).leads rfl (by simp)
    · rfl
    · exact fun _ => rfl
    · rfl
  | allDrawn hpc => exact h.leads rfl (by simp)
  | randomNext r g b hpc =>
    obtain ⟨d, hd⟩ := hneeds hpc List.mem_cons_self
    rw [stepRandomNext, withDev_eq hd]
    refine (hset hd ?_ ?_ ?_).leads rfl (by simp)
    · rfl
    · exact fun _ => rfl
    · rfl
  | @store i j k todo caller hpc =>
    have hplace := hinv.place
    unfold Place at hplace
    rw [hpc] at hplace
    obtain ⟨d, hd⟩ := hneeds hpc List.mem_cons_self
    obtain ⟨map, hrun, -, -⟩ :=
      store_partial ((hinv.sound i d hd).fits d.backBuf) (hplace.2.2 d hd)
    rw [stepStore, withDev_eq hd, hrun]
    refine (hset hd ?_ ?_ ?_).leads rfl (by simp)
    · rfl
    · exact fun b => setBuf_fb b
    · rfl
  | painted hpc => exact h.leads rfl (by simp)
  | pageFlip ok hpc =>
    obtain ⟨d, hd⟩ := hneeds hpc List.mem_cons_self
    exact screens_stepPageFlip h hd ok
  | drawEvents n hpc => exact h.leads rfl (by simp)
  | drawFails hpc => exact h
  | leave hpc => exact h.leads rfl (by simp)
  | event hpc =>
    obtain ⟨d, hd⟩ := hneeds hpc List.mem_cons_self
    rw [stepEvent, withDev_eq hd]
    split_ifs
    · refine (hset hd ?_ ?_ ?_).leads rfl (by simp)
      · rfl
      · exact fun _ => rfl
      · rfl
    · refine (hset hd ?_ ?_ ?_).leads rfl (by simp)
      · rfl
      · exact fun _ => rfl
      · rfl
  | @handled waiter hpc =>
    cases waiter with
    | draw => exact h.leads rfl (by simp [Waiter.after])
    | cleanup i => exact h.leads rfl (by simp [Waiter.after])
  | cleanup hpc =>
    unfold stepCleanup
    split
    · exact h.leads rfl (by simp)
    · rename_i i rest hcons
      obtain ⟨d, hd⟩ := hheld.get (i := i) (by rw [live, hpc, hcons]; exact List.mem_cons_self)
      rw [withDev_eq hd]
      refine (hset hd ?_ ?_ ?_).leads rfl (by simp)
      · rfl
      · exact fun _ => rfl
      · rfl
  | wait hpc =>
    obtain ⟨d, hd⟩ := hcurrent hpc rfl
    rw [stepWait, withDev_eq hd]
    split_ifs <;> exact h.leads rfl (by simp)
  | waitEvents n hpc => exact h.leads rfl (by simp)
  | waitFails hpc => exact h.leads rfl (by simp)
  | restore ok hpc =>
    obtain ⟨d, hd⟩ := hcurrent hpc rfl
    exact screens_stepRestore hinv hheld h hpc hd ok ha
  | destroy hpc =>
    obtain ⟨d, hd⟩ := hcurrent hpc rfl
    exact screens_stepDestroy hinv h hbefore hpc hd

theorem held_start {s : FlipSetup} (hbefore : Quiet drm before) :
    Held (.start s.modesetList before) := by
  have hlive : (World.start s.modesetList before).live = List.range s.modesetList.length := rfl
  refine ⟨fun j => ?_, ?_, fun j => id, fun j hj => absurd hj List.not_mem_nil,
    fun c fb data hflip => ?_, fun j d hd _ => ?_, fun _ => False.elim, id, fun hpc => by cases hpc⟩
  · rw [hlive, List.mem_range]
    simp [World.start]
  · rw [hlive]
    exact List.nodup_range
  · rw [World.start, hbefore.pending] at hflip
    cases hflip
  · exact List.mem_range.mpr (List.getElem?_eq_some_iff.mp hd).1

theorem screens_start {s : FlipSetup} (hs : Prepared drm s) :
    Screens before mayFail (.start s.modesetList before) := by
  refine ⟨fun j d saved hd hsaved => ?_, fun _ _ _ _ => rfl, fun _ => Or.inl rfl,
    fun j _ hpc => by cases hpc⟩
  rw [(hs.created d (List.mem_of_getElem? hd)).saved] at hsaved
  cases hsaved

end World

/-- The runs of the program where the CRTCs are so before. -/
def vsyncFrom (drm : Drm) (before : UInt32 → CrtcState) (allowed : World → Action → Prop) :
    System World where
  start w := ∃ s, Vsync.modesetPrepare drm .start = (.ok 0, s) ∧ w = .start s.modesetList before
  step w w' := ∃ a, allowed w a ∧ w.step a = some w'

open World

section

variable {drm : Drm} {before : UInt32 → CrtcState} {mayFail : Prop} {w : World}

theorem held_of_reached (hdrm : drm.Lawful) (hbefore : Quiet drm before)
    (hw : (vsyncFrom drm before (Succeeds mayFail)).Reached w) :
    Inv drm w ∧ Held w ∧ Screens before mayFail w := by
  apply hw.invariant
  · rintro _ ⟨s, hprepare, rfl⟩
    have hs := Vsync.modesetPrepare_prepared hdrm hprepare
    exact ⟨inv_start hs hbefore, held_start hbefore, screens_start hs⟩
  · rintro v v' ⟨hinv, hheld, hscreens⟩ ⟨a, ha, hstep⟩
    have hheld' := held_step hinv hheld ha hstep
    exact ⟨after_step hinv hstep hheld'.alive, hheld',
      screens_step hinv hheld hscreens hbefore ha hstep⟩

/-- How the program leaves the computer. -/
structure Finished (before : UInt32 → CrtcState) (mayFail : Prop) (w : World) : Prop where
  freed : ∀ i, w.mem i = none
  unread : w.unread = []
  flips : ∀ c, (w.crtcs c).pending = none
  shown : ∀ c, (w.crtcs c).scanout = (before c).scanout ∨ mayFail ∧ (w.crtcs c).scanout = none

/-- The program never uses a freed device, and leaves nothing behind. -/
theorem cleaned_up (hdrm : drm.Lawful) (hbefore : Quiet drm before)
    (hw : (vsyncFrom drm before (Succeeds mayFail)).Reached w) :
    ¬ w.pc.Dead ∧ (w.pc = .exited → Finished before mayFail w) := by
  obtain ⟨-, hheld, hscreens⟩ := held_of_reached hdrm hbefore hw
  refine ⟨hheld.alive, fun hpc => ?_⟩
  have hlive : w.live = [] := by
    rw [live, hpc, hheld.exited hpc]
    rfl
  have hmem (i : Nat) : w.mem i = none := by
    have hnot := mt (hheld.mem i).mpr (by rw [hlive]; exact List.not_mem_nil)
    simpa using hnot
  refine ⟨hmem, List.eq_nil_iff_forall_not_mem.mpr fun j hj => ?_, fun c => ?_, fun c => ?_⟩
  · have hlost := hheld.unread j hj
    rw [hlive] at hlost
    exact List.not_mem_nil hlost
  · cases hpending : (w.crtcs c).pending with
    | none => rfl
    | some flip =>
      have hlost := hheld.flying c flip.1 flip.2 hpending
      rw [hlive] at hlost
      exact absurd hlost List.not_mem_nil
  · rcases hscreens.shown c with hshown | ⟨j, d, b, hd, -⟩ | hnone
    · exact Or.inl hshown
    · rw [hmem] at hd
      cases hd
    · exact Or.inr hnone

end

/-- The frames of the two devices, and one more of the first after its flip. -/
def threeFrames : List Action :=
  [.setCrtc true true, .setCrtc true true, .next,
    .randomStart 1 2 3, .randomNext 4 5 6, .next, .next, .next, .pageFlip true,
    .randomStart 1 2 3, .randomNext 4 5 6, .next, .next, .next, .pageFlip true, .next,
    .vblank 4, .handleEvent 1, .next, .randomNext 4 5 6, .next, .next, .next, .pageFlip true, .next]

/-- Both devices wait for their flips. -/
def waits : List Action :=
  threeFrames ++ [.leave, .next, .next, .vblank 4, .vblank 3, .handleEvent 1, .next, .next, .next,
    .restoreCrtc true, .next, .next, .next, .handleEvent 1, .next, .next, .next, .restoreCrtc true,
    .next, .next]

theorem cleaned_up_waits : ∃ w, tinyStart.run waits = some w ∧ w.pc = .exited ∧
    Finished (fun _ => ⟨none, none⟩) False w := by
  have hpc : (tinyStart.run waits).map (fun w => w.pc) = some .exited := by decide +kernel
  obtain ⟨w, hw, hpc⟩ := Option.map_eq_some_iff.mp hpc
  have hsucceeds : ∀ a ∈ waits, ∀ v, Succeeds False v a := by simp [waits, threeFrames, Succeeds]
  have hreached : (vsyncFrom tinyDisplays _ (Succeeds False)).Reached w :=
    reached_run (fun a ha v _ hstep => ⟨a, hsucceeds a ha v, hstep⟩)
      (.start ⟨tinySetup, modesetPrepare_tiny, rfl⟩) hw
  exact ⟨w, hw, hpc, (cleaned_up tinyDisplays_lawful (quiet_dark _) hreached).2 hpc⟩

-- A read that fails in the wait for a device lets the event of that device come after its end.
example : (tinyStart.run (threeFrames ++ [.leave, .next, .next, .handleFails, .restoreCrtc true,
    .next, .next, .next, .vblank 4, .handleEvent 1, .next])).map (fun w => w.pc) =
      some .useAfterFree := by
  decide +kernel

end PerfTools.X
