import PerfTools.X.FlipSteps

/-!
# Whole frames

In every run, whenever the vertical blanks come, the program never stores to a buffer that is
shown or about to be shown, so that every frame on the screen is a whole one; and it asks for a
flip only when none is under way.
-/

namespace PerfTools.X

open Memory Exec

namespace World

variable {w w' : World} {drm : Drm} {i : Nat} {d : FlipDev}

theorem after_step (h : Inv drm w) {a : Action} (hstep : w.step a = some w') : After drm w' := by
  cases step_cases hstep with
  | vblank c => exact after_vblank h c
  | setCrtc saved ok hpc => exact after_stepSetCrtc h hpc saved ok
  | allSet hpc =>
    have hplace := h.place
    unfold Place at hplace
    rw [hpc] at hplace
    exact h.goto hpc rfl (fun _ => id) ⟨hplace.2.1, fun j _ => hplace.2.2.1 j⟩
  | randomStart r g b hpc => exact after_stepRandomStart h hpc r g b
  | allDrawn hpc => exact h.goto hpc rfl (fun _ => id) trivial
  | randomNext r g b hpc => exact after_stepRandomNext h hpc r g b
  | store hpc => exact after_stepStore h hpc
  | painted hpc => exact after_painted h hpc
  | pageFlip ok hpc => exact after_stepPageFlip h hpc ok
  | drawEvents n hpc =>
    exact after_stepHandleEvent h (by rw [hpc]; rfl) (by rw [hpc]; exact fun _ => id) n _
  | drawFails hpc => exact fun _ => h
  | leave hpc => exact h.goto hpc rfl (fun _ => id) trivial
  | event hpc => exact after_stepEvent h hpc
  | @handled waiter hpc =>
    cases waiter with
    | draw => exact h.goto hpc rfl (fun _ => id) trivial
    | cleanup i => exact h.goto hpc rfl (fun _ => id) trivial
  | cleanup hpc => exact after_stepCleanup h hpc
  | wait hpc => exact after_stepWait h hpc
  | waitEvents n hpc =>
    exact after_stepHandleEvent h (by rw [hpc]; rfl) (by rw [hpc]; exact fun _ => id) n _
  | waitFails hpc => exact h.goto hpc rfl (fun _ => id) trivial
  | restore ok hpc => exact after_stepRestore h hpc ok
  | destroy hpc => exact after_stepDestroy h hpc

/-- A program that has come to grief stays there. -/
theorem dead_step (hdead : w.pc.Dead) {a : Action} (hstep : w.step a = some w') : w'.pc.Dead := by
  cases step_cases hstep with
  | vblank c =>
    unfold vblank
    split <;> exact hdead
  | drawFails hpc => exact hdead
  | _ =>
    rename_i hpc
    rw [hpc] at hdead
    exact hdead.elim

/-- What modeset_prepare hands over has all that the invariant asks for. -/
theorem inv_start {s : FlipSetup} (hs : Prepared drm s) {crtcs : UInt32 → CrtcState}
    (hquiet : Quiet drm crtcs) : Inv drm (.start s.modesetList crtcs) := by
  have hmem {i : Nat} {d : FlipDev} (hd : s.modesetList[i]? = some d) :
      d.Created drm := hs.created d (List.mem_of_getElem? hd)
  have hgives {i : Nat} {d : FlipDev} (hd : s.modesetList[i]? = some d) (b : Fin 2) :
      drm.Gives (d.bufs b).fb := ((hmem hd).bufs b).given
  constructor
  · intro i d hd
    have hcreated := hmem hd
    refine ⟨fun b => (hcreated.bufs b).fits, hgives hd, hcreated.apart, ?_, ?_, ?_, ?_,
      (hcreated.bufs _).uniform, fun _ => (hcreated.bufs _).uniform⟩
    · rw [hcreated.pending, World.start, queue]
      dsimp only
      rw [CrtcState.flying, hquiet.pending]
      rfl
    · intro c fb data hflip
      rw [World.start] at hflip
      rw [hquiet.pending] at hflip
      cases hflip
    · intro c b hshown
      exact absurd (hgives hd b) (hquiet.scanout c _ hshown)
    · intro saved hsaved
      rw [hcreated.saved] at hsaved
      cases hsaved
  · intro i j d d' hd hd' hij
    obtain ⟨hi, rfl⟩ := List.getElem?_eq_some_iff.mp hd
    obtain ⟨hj, rfl⟩ := List.getElem?_eq_some_iff.mp hd'
    have happart := List.pairwise_iff_getElem.mp hs.apart
    rcases Nat.lt_or_gt_of_ne hij with hlt | hgt
    · exact happart i j hi hj hlt
    · exact (happart j i hj hi hgt).symm
  · refine ⟨List.nodup_range, List.nodup_range, fun i d hd => (hmem hd).pending, hquiet.pending,
      fun i _ d _ fb => hquiet.scanout _ fb⟩

/-- The invariant holds in every run, until the program comes to grief. -/
theorem inv_of_reached (hdrm : drm.Lawful) {allowed : World → Action → Prop}
    (hw : (vsync drm allowed).Reached w) : After drm w := by
  apply hw.invariant
  · rintro _ ⟨s, crtcs, hprepare, hquiet, rfl⟩ _
    exact inv_start (Vsync.modesetPrepare_prepared hdrm hprepare) hquiet
  · rintro s t hs ⟨a, -, hstep⟩ hlive
    by_cases hdead : s.pc.Dead
    · exact absurd (dead_step hdead hstep) hlive
    · exact after_step (hs hdead) hstep hlive

end World

open World

/-! ## A run -/

/-- The steps of a run. -/
def World.run (w : World) : List Action → Option World
  | [] => some w
  | a :: as => (w.step a).bind fun w' => w'.run as

theorem reached_run {S : System World} {w w' : World} {as : List Action}
    (hstep : ∀ a ∈ as, ∀ v v', v.step a = some v' → S.step v v') (hw : S.Reached w)
    (has : w.run as = some w') : S.Reached w' := by
  induction as generalizing w with
  | nil =>
    obtain rfl := Option.some.inj has
    exact hw
  | cons a as ih =>
    obtain ⟨v, hv, hrest⟩ := Option.bind_eq_some_iff.mp has
    exact ih (fun a ha => hstep a (List.mem_cons_of_mem _ ha))
      (.step hw (hstep a List.mem_cons_self _ _ hv)) hrest

/-- Two displays of two pixels each. -/
def tinyDisplays : Drm where
  resources := twoDisplays.resources
  connector id := some ⟨id, 1, .connected, [⟨2, 1, []⟩], [1]⟩
  encoder _ := some ⟨3, 3⟩
  framebuffer n width height :=
    if 4 * width * height < 2 ^ 32 ∧ width < 2 ^ 16 ∧ n < 2 ^ 16 then
      ⟨.ok ⟨UInt32.ofNat (4 * width), UInt64.ofNat (4 * width * height), 1⟩,
        .ok (UInt32.ofNat (n + 16)), .ok 0, .ok ()⟩
    else ⟨.error 12, .error 12, .error 12, .error 12⟩

theorem tinyDisplays_lawful : tinyDisplays.Lawful where
  errno n width height := by
    unfold tinyDisplays
    dsimp only
    split_ifs <;> constructor <;> simp
  rows n width height creq h := by
    have hwidth := width.toNat_lt
    unfold tinyDisplays at h
    dsimp only at h
    split_ifs at h with hfits
    obtain rfl := Except.ok.inj h
    have hpitch : (UInt32.ofNat (4 * width.toNat)).toNat = 4 * width.toNat :=
      UInt32.toNat_ofNat_of_lt' (by simp only [UInt32.size]; omega)
    have hsize : (UInt64.ofNat (4 * width.toNat * height.toNat)).toNat =
      4 * width.toNat * height.toNat := UInt64.toNat_ofNat_of_lt' (by simp only [UInt64.size]; omega)
    dsimp only
    rw [hpitch, hsize]
    exact ⟨le_rfl, le_rfl, hfits.1⟩
  ids ret s h := by
    have hcalls : (Vsync.modesetPrepare tinyDisplays .start).2.fbCalls =
        [.add 19, .add 18, .add 17, .add 16] := by decide +kernel
    rw [h] at hcalls
    dsimp only at hcalls
    rw [hcalls]
    simp [FreshIds, liveFbs]

def tinySetup : FlipSetup := (Vsync.modesetPrepare tinyDisplays .start).2

theorem modesetPrepare_tiny : Vsync.modesetPrepare tinyDisplays .start = (.ok 0, tinySetup) := by
  have h : (Vsync.modesetPrepare tinyDisplays .start).1 = .ok 0 := by decide +kernel
  rw [tinySetup, ← h]

/-- Screens that are dark before the program starts. -/
def tinyStart : World := .start tinySetup.modesetList fun _ => ⟨none, none⟩

theorem quiet_dark (drm : Drm) : Quiet drm fun _ => ⟨none, none⟩ :=
  ⟨fun _ => rfl, fun _ fb h => by cases h⟩

theorem tinyStart_reached {as : List Action} {w : World} (has : tinyStart.run as = some w) :
    (vsync tinyDisplays fun _ _ => True).Reached w :=
  reached_run (fun a _ _ _ hstep => ⟨a, trivial, hstep⟩)
    (.start ⟨tinySetup, _, modesetPrepare_tiny, quiet_dark _, rfl⟩) has

/-- Up to the second pixel of the first device. -/
def paints : List Action :=
  [.setCrtc true true, .setCrtc true true, .next, .randomStart 1 2 3, .randomNext 4 5 6, .next]

theorem paints_pc :
    (tinyStart.run paints).map (fun w => w.pc) = some (.pixels 0 [(0, 1)] (.outputs [1])) := by
  decide +kernel

/-! ## What can be seen -/

section

variable {drm : Drm} {allowed : World → Action → Prop} {w : World}

theorem paints_hidden (hdrm : drm.Lawful) (hw : (vsync drm allowed).Reached w) {i : Nat}
    {todo : List (Nat × Nat)} {caller : Caller} {d : FlipDev} (hpc : w.pc = .pixels i todo caller)
    (hd : w.mem i = some d) (c : UInt32) :
    (w.crtcs c).scanout ≠ some d.back.fb ∧ ∀ data, (w.crtcs c).pending ≠ some (d.back.fb, data) := by
  have hinv := inv_of_reached hdrm hw (by rw [hpc]; exact id)
  have hplace := hinv.place
  unfold Place at hplace
  rw [hpc] at hplace
  have hsound := hinv.sound i d hd
  have hnone := hsound.idle (hplace.1 d hd)
  constructor
  · intro hshown
    obtain ⟨rfl, hpending⟩ := hsound.screen c d.backBuf hshown
    exact hpending rfl hnone
  · intro data hflip
    have hown := hsound.flips c d.back.fb data hflip
    by_cases hdata : data = i
    · obtain ⟨rfl, -⟩ := hown.own hdata
      rw [hnone] at hflip
      cases hflip
    · exact (hown.other hdata).2 d.backBuf rfl

theorem exists_pixels {pc : Pc} {i : Nat} (h : pc.Painting i) :
    ∃ todo caller, pc = .pixels i todo caller := by
  revert h
  cases pc with
  | pixels j todo caller =>
    rintro rfl
    exact ⟨todo, caller, rfl⟩
  | _ => exact False.elim

/-- What can be seen: a CRTC shows a buffer of its own device only, and a whole frame, and while the
program paints a buffer, no CRTC shows it and none is about to. -/
structure Untorn (w : World) : Prop where
  whole : ∀ i d, w.mem i = some d → ∀ c b, (w.crtcs c).scanout = some (d.bufs b).fb →
    c = d.crtc ∧ (d.bufs b).Uniform
  hidden : ∀ i todo caller d, w.pc = .pixels i todo caller → w.mem i = some d → ∀ c,
    (w.crtcs c).scanout ≠ some d.back.fb ∧ ∀ data, (w.crtcs c).pending ≠ some (d.back.fb, data)

/-- No run tears a frame, until a freed device is used or a CRTC restored that was not saved. -/
theorem untorn (hdrm : drm.Lawful) (hw : (vsync drm allowed).Reached w) (hlive : ¬ w.pc.Dead) :
    Untorn w := by
  refine ⟨fun i d hd c b hshown => ?_, fun i todo caller d => paints_hidden hdrm hw⟩
  have hsound := (inv_of_reached hdrm hw hlive).sound i d hd
  refine ⟨(hsound.screen c b hshown).1, ?_⟩
  rcases d.eq_front_or_back b with rfl | rfl
  · exact hsound.front
  · apply hsound.back
    intro hpaint
    obtain ⟨todo, caller, hpc⟩ := exists_pixels hpaint
    exact (paints_hidden hdrm hw hpc hd c).1 hshown

theorem untorn_paints : ∃ w, tinyStart.run paints = some w ∧
    w.pc = .pixels 0 [(0, 1)] (.outputs [1]) ∧ Untorn w := by
  obtain ⟨w, hw, hpc⟩ := Option.map_eq_some_iff.mp paints_pc
  exact ⟨w, hw, hpc,
    untorn tinyDisplays_lawful (tinyStart_reached hw) (by rw [hpc]; exact id)⟩

/-- Every flip has one trace: the mark of its device, and the flip in the kernel, its event to be
read, or its event to be handled. So the kernel is never busy when it is asked for a flip, and a
program that waits for a device waits for something that comes. -/
structure Accounted (w : World) : Prop where
  outstanding : ∀ i d, w.mem i = some d →
    ((w.crtcs d.crtc).flying ++ w.queue).count i = d.pflipPending.toNat
  idle : ∀ i caller d, w.pc = .flip i caller → w.mem i = some d → (w.crtcs d.crtc).pending = none
  awaited : ∀ i d, w.pc = .read i → w.mem i = some d →
    (w.crtcs d.crtc).pending = some (d.front.fb, i) ∨ i ∈ w.unread

theorem accounted (hdrm : drm.Lawful) (hw : (vsync drm allowed).Reached w) (hlive : ¬ w.pc.Dead) :
    Accounted w := by
  have hinv := inv_of_reached hdrm hw hlive
  refine ⟨fun i d hd => (hinv.sound i d hd).outstanding, fun i caller d hpc hd => ?_,
    fun i d hpc hd => ?_⟩
  · have hplace := hinv.place
    unfold Place at hplace
    rw [hpc] at hplace
    exact (hinv.sound i d hd).idle (hplace.1 d hd)
  · have hplace := hinv.place
    unfold Place at hplace
    rw [hpc] at hplace
    have hsound := hinv.sound i d hd
    have hcount := hsound.outstanding
    have hqueue : w.queue = w.unread := by
      rw [queue, hpc]
      rfl
    rw [hplace d hd, hqueue] at hcount
    have hmem : i ∈ (w.crtcs d.crtc).flying ++ w.unread := by
      rw [← List.count_pos_iff, hcount]
      decide
    rcases List.mem_append.mp hmem with hflying | hunread
    · left
      cases hpending : (w.crtcs d.crtc).pending with
      | none => simp [CrtcState.flying, hpending] at hflying
      | some flip =>
        obtain ⟨fb, data⟩ := flip
        have hdata : i = data := by simpa [CrtcState.flying, hpending] using hflying
        subst hdata
        rw [((hsound.flips _ fb i hpending).own rfl).2]
    · exact Or.inr hunread

theorem accounted_paints : ∃ w, tinyStart.run paints = some w ∧
    w.pc = .pixels 0 [(0, 1)] (.outputs [1]) ∧ Accounted w := by
  obtain ⟨w, hw, hpc⟩ := Option.map_eq_some_iff.mp paints_pc
  exact ⟨w, hw, hpc,
    accounted tinyDisplays_lawful (tinyStart_reached hw) (by rw [hpc]; exact id)⟩

end

end PerfTools.X
