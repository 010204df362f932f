import PerfTools.X.FlipInvariant

/-!
# Every step keeps the invariant

What a step can do is said once. One lemma for each step then gives the invariant of all runs.
-/

namespace PerfTools.X

open Memory Exec

namespace World

/-- What a step can do, by the place of the program. -/
inductive Stepped (w : World) : Action → World → Prop
  | vblank (c : UInt32) : Stepped w (.vblank c) (w.vblank c)
  | setCrtc {i : Nat} {todo : List Nat} (saved ok : Bool) (hpc : w.pc = .setCrtcs (i :: todo)) :
      Stepped w (.setCrtc saved ok) (w.stepSetCrtc i todo saved ok)
  | allSet (hpc : w.pc = .setCrtcs []) : Stepped w .next (w.goto (.outputs w.modesetList))
  | randomStart {i : Nat} {todo : List Nat} (r g b : Nat) (hpc : w.pc = .outputs (i :: todo)) :
      Stepped w (.randomStart r g b) (w.stepRandomStart i todo r g b)
  | allDrawn (hpc : w.pc = .outputs []) : Stepped w .next (w.goto .select)
  | randomNext {i : Nat} {caller : Caller} (r g b : Nat) (hpc : w.pc = .drawDev i caller) :
      Stepped w (.randomNext r g b) (w.stepRandomNext i caller r g b)
  | store {i j k : Nat} {todo : List (Nat × Nat)} {caller : Caller}
      (hpc : w.pc = .pixels i ((j, k) :: todo) caller) :
      Stepped w .next (w.stepStore i j k todo caller)
  | painted {i : Nat} {caller : Caller} (hpc : w.pc = .pixels i [] caller) :
      Stepped w .next (w.goto (.flip i caller))
  | pageFlip {i : Nat} {caller : Caller} (ok : Bool) (hpc : w.pc = .flip i caller) :
      Stepped w (.pageFlip ok) (w.stepPageFlip i caller ok)
  | drawEvents (n : Nat) (hpc : w.pc = .select) :
      Stepped w (.handleEvent n) (w.stepHandleEvent n .draw)
  | drawFails (hpc : w.pc = .select) : Stepped w .handleFails w
  | leave (hpc : w.pc = .select) : Stepped w .leave (w.goto .cleanup)
  | event {i : Nat} {todo : List Nat} {waiter : Waiter} (hpc : w.pc = .events (i :: todo) waiter) :
      Stepped w .next (w.stepEvent i todo waiter)
  | handled {waiter : Waiter} (hpc : w.pc = .events [] waiter) :
      Stepped w .next (w.goto waiter.after)
  | cleanup (hpc : w.pc = .cleanup) : Stepped w .next w.stepCleanup
  | wait {i : Nat} (hpc : w.pc = .wait i) : Stepped w .next (w.stepWait i)
  | waitEvents {i : Nat} (n : Nat) (hpc : w.pc = .read i) :
      Stepped w (.handleEvent n) (w.stepHandleEvent n (.cleanup i))
  | waitFails {i : Nat} (hpc : w.pc = .read i) : Stepped w .handleFails (w.goto (.restore i))
  | restore {i : Nat} (ok : Bool) (hpc : w.pc = .restore i) :
      Stepped w (.restoreCrtc ok) (w.stepRestore i ok)
  | destroy {i : Nat} (hpc : w.pc = .destroy i) : Stepped w .next (w.stepDestroy i)

theorem stepNext_cases {w w' : World} (h : w.stepNext = some w') : Stepped w .next w' := by
  unfold stepNext at h
  split at h
  case h_10 => cases h
  all_goals
    rename_i hpc
    obtain rfl := Option.some.inj h
  · exact .allSet hpc
  · exact .allDrawn hpc
  · exact .painted hpc
  · exact .store hpc
  · exact .handled hpc
  · exact .event hpc
  · exact .cleanup hpc
  · exact .wait hpc
  · exact .destroy hpc

/-- The inversion of a step. -/
theorem step_cases {w w' : World} {a : Action} (h : w.step a = some w') : Stepped w a w' := by
  cases a with
  | vblank c =>
    obtain rfl := Option.some.inj h
    exact .vblank c
  | setCrtc saved ok =>
    rw [step] at h
    split at h
    · rename_i hpc
      obtain rfl := Option.some.inj h
      exact .setCrtc saved ok hpc
    · cases h
  | randomStart r g b =>
    rw [step] at h
    split at h
    · rename_i hpc
      obtain rfl := Option.some.inj h
      exact .randomStart r g b hpc
    · cases h
  | randomNext r g b =>
    rw [step] at h
    split at h
    · rename_i hpc
      obtain rfl := Option.some.inj h
      exact .randomNext r g b hpc
    · cases h
  | pageFlip ok =>
    rw [step] at h
    split at h
    · rename_i hpc
      obtain rfl := Option.some.inj h
      exact .pageFlip ok hpc
    · cases h
  | handleEvent n =>
    rw [step] at h
    split at h
    · rename_i hpc
      obtain rfl := Option.some.inj h
      exact .drawEvents n hpc
    · rename_i hpc
      obtain rfl := Option.some.inj h
      exact .waitEvents n hpc
    · cases h
  | handleFails =>
    rw [step] at h
    split at h
    · rename_i hpc
      obtain rfl := Option.some.inj h
      exact .drawFails hpc
    · rename_i hpc
      obtain rfl := Option.some.inj h
      exact .waitFails hpc
    · cases h
  | leave =>
    rw [step] at h
    split at h
    · rename_i hpc
      obtain rfl := Option.some.inj h
      exact .leave hpc
    · cases h
  | restoreCrtc ok =>
    rw [step] at h
    split at h
    · rename_i hpc
      obtain rfl := Option.some.inj h
      exact .restore ok hpc
    · cases h
  | next => exact stepNext_cases h

variable {w w' : World} {drm : Drm} {i j : Nat} {d d' : FlipDev}

/-! ## Places -/

theorem idle_setDev (hd : d.pflipPending = false) (hj : j ≠ i → w.Idle j) :
    (w.setDev i d).Idle j := by
  intro e he
  rcases setDev_cases he with ⟨rfl, rfl⟩ | ⟨hne, hold⟩
  · exact hd
  · exact hj hne e hold

/-- Whether a place is as it should be depends on the memory, and before the first frame on the
CRTCs, too. -/
theorem place_congr (hmem : w'.mem = w.mem) (hpc : w'.pc = w.pc)
    (hset : ∀ todo, w.pc ≠ .setCrtcs todo) (h : w.Place drm) : w'.Place drm := by
  have hidle : w'.Idle = w.Idle := by
    funext i
    unfold Idle
    rw [hmem]
  have hcallable : w'.Callable = w.Callable := by
    funext i caller
    cases caller <;> simp only [Callable, hidle]
  unfold Place at h ⊢
  rw [hpc]
  revert h
  cases hw : w.pc with
  | setCrtcs todo => exact absurd hw (hset todo)
  | _ => simp only [hidle, hcallable, hmem]; exact id

theorem place_after {caller : Caller} (hcallable : w.Callable i caller) (hpc : w.pc = caller.after) :
    w.Place drm := by
  unfold Place
  rw [hpc]
  cases caller with
  | outputs todo => exact ⟨(List.nodup_cons.mp hcallable.1).2, hcallable.2⟩
  | events todo waiter => trivial

theorem callable_setDev {caller : Caller} (hcallable : w.Callable i caller) :
    (w.setDev i d).Callable i caller := by
  cases caller with
  | outputs todo =>
    obtain ⟨hnodup, hidle⟩ := hcallable
    refine ⟨hnodup, fun j hj e he => ?_⟩
    rcases setDev_cases he with ⟨rfl, -⟩ | ⟨-, hold⟩
    · exact absurd hj (List.nodup_cons.mp hnodup).1
    · exact hidle j hj e hold
  | events todo waiter => trivial

theorem batch_after (caller : Caller) : caller.after.batch = caller.batch := by
  cases caller <;> rfl

/-! ## Steps -/

theorem after_vblank (h : Inv drm w) (c : UInt32) : After drm (w.vblank c) := by
  unfold vblank
  split
  · exact fun _ => h
  · rename_i fb data hflip
    intro _
    refine ⟨fun i d hd => ?_, h.apart, ?_⟩
    · have hqueue : w.pc.batch ++ (w.unread ++ [data]) = w.queue ++ [data] :=
        (List.append_assoc ..).symm
      change Sound drm _ (w.pc.batch ++ (w.unread ++ [data])) _ i d
      rw [hqueue]
      exact (h.sound i d hd).vblank hflip
    · refine place_congr ?_ ?_ ?_ h.place
      · rfl
      · rfl
      intro todo hpc
      have hplace := h.place
      unfold Place at hplace
      rw [hpc] at hplace
      rw [hplace.2.2.2.1 c] at hflip
      cases hflip

theorem after_stepSetCrtc (h : Inv drm w) {todo : List Nat} (hpc : w.pc = .setCrtcs (i :: todo))
    (saved ok : Bool) : After drm (w.stepSetCrtc i todo saved ok) := by
  have hplace := h.place
  unfold Place at hplace
  rw [hpc] at hplace
  obtain ⟨hnodup, hlist, hidle, hpending, hscanout⟩ := hplace
  obtain ⟨hi, htodo⟩ := List.nodup_cons.mp hnodup
  have hqueue : w.queue = w.unread := by rw [queue, hpc]; rfl
  have hpaint (j : Nat) : w.pc.Painting j ↔ False := by rw [hpc]; rfl
  apply after_withDev
  intro d hd
  have hforeign := hscanout i List.mem_cons_self d hd
  -- What the CRTCs show now, and that this concerns no other device.
  obtain ⟨crtcs, hcrtcs, hsame, hown⟩ : ∃ crtcs,
      crtcs = (if ok then Function.update w.crtcs d.crtc ⟨some d.front.fb, none⟩ else w.crtcs) ∧
      (∀ c, (crtcs c).pending = (w.crtcs c).pending) ∧
      ∀ c fb, (crtcs c).scanout = some fb →
        (w.crtcs c).scanout = some fb ∨ c = d.crtc ∧ fb = d.front.fb := by
    refine ⟨_, rfl, ?_, ?_⟩
    · intro c
      cases ok
      · rfl
      · by_cases hc : c = d.crtc
        · simp [hc, hpending]
        · simp [Function.update_of_ne hc]
    · intro c fb hshown
      cases ok
      · exact Or.inl hshown
      · by_cases hc : c = d.crtc
        · subst hc
          simp only [if_true, Function.update_self, Option.some.injEq] at hshown
          exact Or.inr ⟨rfl, hshown.symm⟩
        · simp only [if_true, Function.update_of_ne hc] at hshown
          exact Or.inl hshown
  have hworld : (if ok then (w.setDev i { d with
      savedCrtc := if saved then some ⟨d.crtc, (w.crtcs d.crtc).scanout⟩ else none }).setCrtcState
        d.crtc { w.crtcs d.crtc with scanout := some d.front.fb } else w.setDev i { d with
      savedCrtc := if saved then some ⟨d.crtc, (w.crtcs d.crtc).scanout⟩ else none }).goto
        (.setCrtcs todo) = ⟨(w.setDev i { d with
      savedCrtc := if saved then some ⟨d.crtc, (w.crtcs d.crtc).scanout⟩ else none }).mem,
        w.modesetList, crtcs, w.unread, .setCrtcs todo⟩ := by
    rw [hcrtcs]
    cases ok
    · rfl
    · simp only [if_true, hpending]
      rfl
  dsimp only
  rw [hworld]
  have hsound := h.sound i d hd
  rw [hqueue] at hsound
  apply h.setDev hd
  · rfl
  · have hshown : Sound drm crtcs w.unread (w.pc.Painting i) i d := by
      apply hsound.rescan hsame
      intro c b hc
      rcases hown c _ hc with hold | ⟨hcrtc, hfb⟩
      · exact Or.inl hold
      · exact Or.inr ⟨hcrtc, FlipDev.buf_eq_of_fb hsound.apart hfb⟩
    rw [hpaint] at hshown
    refine ⟨hshown.fits, hshown.gives, hshown.apart, hshown.outstanding, fun c fb data hflip => ?_,
      hshown.screen, fun s hs => ?_, hshown.front, hshown.back⟩
    · have hflips := hshown.flips c fb data hflip
      exact ⟨hflips.own, hflips.other⟩
    · dsimp only at hs
      split_ifs at hs
      obtain rfl := Option.some.inj hs
      exact ⟨rfl, hforeign⟩
  · intro j dj hne hj
    have hsoundj := h.sound j dj hj
    rw [hqueue, hpaint] at hsoundj
    apply hsoundj.rescan hsame
    intro c b hc
    rcases hown c _ hc with hold | ⟨-, hfb⟩
    · exact Or.inl hold
    · exact absurd hfb ((h.apart j i dj d hj hd hne).fb b _)
  · exact fun e he => ⟨he.crtc, he.fb⟩
  · refine ⟨htodo, hlist, fun j => idle_setDev (hidle i d hd) fun _ => hidle j,
      fun c => (hsame c).trans (hpending c), fun j hj dj hdj fb hfb => ?_⟩
    rcases setDev_cases hdj with ⟨rfl, -⟩ | ⟨hne, hold⟩
    · exact absurd hj hi
    · rcases hown _ _ hfb with hfb | ⟨hcrtc, -⟩
      · exact hscanout j (List.mem_cons_of_mem _ hj) dj hold fb hfb
      · exact absurd hcrtc (h.apart j i dj d hold hd hne).crtc

theorem Inv.recolor (h : Inv drm w) (hd : w.mem i = some d)
    (hmem : w'.mem = (w.setDev i d').mem) (halike : d.Alike d') (hcrtcs : w'.crtcs = w.crtcs)
    (hqueue : w'.queue = w.queue)
    (hpaint : ∀ j, w.pc.Painting j → w'.pc.Painting j) (hplace : w'.Place drm) : After drm w' := by
  apply h.setDev hd hmem
  · rw [hqueue, hcrtcs]
    exact ((h.sound i d hd).congr halike).repaint (hpaint i)
  · intro j dj _ hj
    rw [hqueue, hcrtcs]
    exact (h.sound j dj hj).repaint (hpaint j)
  · intro e he
    exact ⟨halike.crtc.symm ▸ he.crtc, halike.bufs.symm ▸ he.fb⟩
  · exact hplace

theorem after_stepRandomStart (h : Inv drm w) {todo : List Nat} (hpc : w.pc = .outputs (i :: todo))
    (r g b : Nat) : After drm (w.stepRandomStart i todo r g b) := by
  have hplace := h.place
  unfold Place at hplace
  rw [hpc] at hplace
  obtain ⟨hnodup, hidle⟩ := hplace
  apply after_withDev
  intro d hd
  have hown := hidle i List.mem_cons_self d hd
  apply h.recolor hd
  · rfl
  · exact ⟨rfl, rfl, rfl, rfl, rfl⟩
  · rfl
  · rw [queue, queue, hpc]
    rfl
  · rw [hpc]
    exact fun _ => id
  refine ⟨fun e he => ?_, hnodup, fun j hj => ?_⟩
  · rcases setDev_cases he with ⟨-, rfl⟩ | ⟨hne, -⟩
    · exact hown
    · exact absurd rfl hne
  · exact idle_setDev hown fun _ => hidle j (List.mem_cons_of_mem _ hj)

theorem mem_pixelsOf {buf : ModesetBuf} {p : Nat × Nat} :
    p ∈ pixelsOf buf ↔ p.2 < buf.width ∧ p.1 < buf.height := by
  obtain ⟨j, k⟩ := p
  simp only [pixelsOf, List.mem_flatMap, List.mem_range, List.mem_map, Prod.mk.injEq]
  constructor
  · rintro ⟨j', hj, k', hk, rfl, rfl⟩
    exact ⟨hk, hj⟩
  · rintro ⟨hk, hj⟩
    exact ⟨j, hj, k, hk, rfl, rfl⟩

theorem after_stepRandomNext (h : Inv drm w) {caller : Caller} (hpc : w.pc = .drawDev i caller)
    (r g b : Nat) : After drm (w.stepRandomNext i caller r g b) := by
  have hplace := h.place
  unfold Place at hplace
  rw [hpc] at hplace
  obtain ⟨hidle, hcallable⟩ := hplace
  apply after_withDev
  intro d hd
  apply h.recolor hd
  · rfl
  · exact ⟨rfl, rfl, rfl, rfl, rfl⟩
  · rfl
  · rw [queue, queue, hpc]
    rfl
  · rw [hpc]
    exact fun _ => False.elim
  refine ⟨idle_setDev (hidle d hd) fun hne => absurd rfl hne, ?_, fun e he => ?_⟩
  · exact callable_setDev hcallable
  · rcases setDev_cases he with ⟨-, rfl⟩ | ⟨hne, -⟩
    · refine ⟨fun p hp => mem_pixelsOf.mp hp, fun x y hx hy hout => ?_⟩
      exact absurd (mem_pixelsOf.mpr ⟨hx, hy⟩) hout
    · exact absurd rfl hne

theorem store_partial {j k : Nat} {todo : List (Nat × Nat)} (hfits : d.back.Fits)
    (hdrawing : Partial ((j, k) :: todo) d) :
    ∃ map, drawPixel d.back.toModesetDev d.value j k d.back.map = (.ok (), map) ∧
      map.length = d.back.map.length ∧
      Partial todo (d.setBuf d.backBuf { d.back with map := map }) := by
  obtain ⟨hk, hj⟩ := hdrawing.rest (j, k) List.mem_cons_self
  have hmapped := hfits.mapped hk hj
  have hstart : Painted d.back.toModesetDev d.value (fun _ _ => False) d.back.map d.back.map :=
    .none _ fun _ _ => id
  obtain ⟨_, map, hrun, hpainted⟩ :=
    returns_of_wp (drawPixel_painted hmapped hfits.map hstart hk hj)
  have hback : (d.setBuf d.backBuf { d.back with map := map }).back = { d.back with map := map } :=
    Function.update_self ..
  refine ⟨map, hrun, hpainted.length, ?_, ?_⟩
  · rw [hback]
    exact fun p hp => hdrawing.rest p (List.mem_cons_of_mem _ hp)
  · rw [hback]
    intro x y hx hy hout
    by_cases hsame : x = k ∧ y = j
    · exact hpainted.new x y hx hy (Or.inr hsame)
    · have hold := hdrawing.done x y hx hy (by
        rw [List.mem_cons, Prod.mk.injEq, not_or]
        exact ⟨fun heq => hsame ⟨heq.2, heq.1⟩, hout⟩)
      exact (hpainted.old x y hx hy (by simpa using hsame)).trans hold

theorem after_stepStore (h : Inv drm w) {j k : Nat} {todo : List (Nat × Nat)} {caller : Caller}
    (hpc : w.pc = .pixels i ((j, k) :: todo) caller) :
    After drm (w.stepStore i j k todo caller) := by
  have hplace := h.place
  unfold Place at hplace
  rw [hpc] at hplace
  obtain ⟨hidle, hcallable, hdrawing⟩ := hplace
  apply after_withDev
  intro d hd
  have hsound := h.sound i d hd
  have hpaint : w.pc.Painting i := by
    rw [hpc]
    exact rfl
  obtain ⟨map, hrun, hlen, hdrawing'⟩ := store_partial (hsound.fits d.backBuf) (hdrawing d hd)
  have hqueue : caller.batch ++ w.unread = w.queue := by
    rw [queue, hpc]
    rfl
  rw [hrun]
  dsimp only
  apply h.setDev hd
  · rfl
  · change Sound drm w.crtcs (caller.batch ++ w.unread) (i = i) i _
    rw [hqueue]
    exact (hsound.store hlen hpaint).repaint fun _ => rfl
  · intro j' dj hne hj'
    change Sound drm w.crtcs (caller.batch ++ w.unread) (i = j') j' dj
    rw [hqueue]
    refine (h.sound j' dj hj').repaint ?_
    rw [hpc]
    exact id
  · intro e he
    refine ⟨he.crtc, fun a b => ?_⟩
    rw [FlipDev.setBuf]
    dsimp only
    rw [Function.update_apply]
    split_ifs with ha
    · exact he.fb d.backBuf b
    · exact he.fb a b
  · refine ⟨idle_setDev (hidle d hd) fun hne => absurd rfl hne, callable_setDev hcallable,
      fun e he => ?_⟩
    rcases setDev_cases he with ⟨-, rfl⟩ | ⟨hne, -⟩
    · exact hdrawing'
    · exact absurd rfl hne

theorem after_painted (h : Inv drm w) {caller : Caller} (hpc : w.pc = .pixels i [] caller) :
    After drm (w.goto (.flip i caller)) := by
  have hplace := h.place
  unfold Place at hplace
  rw [hpc] at hplace
  obtain ⟨hidle, hcallable, hdrawing⟩ := hplace
  intro _
  refine ⟨fun j d hd => ?_, h.apart, hidle, hcallable⟩
  have hqueue : (w.goto (.flip i caller)).queue = w.queue := by
    rw [queue, queue, hpc]
    rfl
  have hsound := h.sound j d hd
  rw [hqueue]
  refine { hsound with back := fun _ => ?_ }
  by_cases hij : i = j
  · subst hij
    have hdone := (hdrawing d hd).done
    exact ⟨d.value, fun x y hx hy => hdone x y hx hy (List.not_mem_nil)⟩
  · apply hsound.back
    rw [hpc]
    exact hij

theorem after_stepPageFlip (h : Inv drm w) {caller : Caller} (hpc : w.pc = .flip i caller)
    (ok : Bool) : After drm (w.stepPageFlip i caller ok) := by
  have hplace := h.place
  unfold Place at hplace
  rw [hpc] at hplace
  obtain ⟨hidle, hcallable⟩ := hplace
  have hqueue : caller.after.batch ++ w.unread = w.queue := by
    rw [queue, hpc, batch_after]
    rfl
  have hpaint (j : Nat) : w.pc.Painting j → False := by
    rw [hpc]
    exact id
  apply after_withDev
  intro d hd
  dsimp only
  split_ifs with hok
  · apply h.setDev hd
    · rfl
    · change Sound drm _ (caller.after.batch ++ w.unread) _ i _
      rw [hqueue]
      exact (((h.sound i d hd).repaint (hpaint i)).flip (hidle d hd)).repaint False.elim
    · intro j dj hne hj
      change Sound drm _ (caller.after.batch ++ w.unread) _ j dj
      rw [hqueue]
      exact ((h.sound j dj hj).flip_other hne.symm (h.apart i j d dj hd hj hne.symm)).repaint
        fun hpainting => (hpaint j hpainting).elim
    · exact fun e he => ⟨he.crtc, he.fb⟩
    · exact place_after (callable_setDev hcallable) rfl
  · exact h.goto hpc (batch_after caller) (fun _ => False.elim) (place_after hcallable rfl)

theorem after_stepEvent (h : Inv drm w) {todo : List Nat} {waiter : Waiter}
    (hpc : w.pc = .events (i :: todo) waiter) : After drm (w.stepEvent i todo waiter) := by
  have hqueue : w.queue = i :: (todo ++ w.unread) := by
    rw [queue, hpc]
    rfl
  have hpaint (j : Nat) : w.pc.Painting j → False := by
    rw [hpc]
    exact id
  apply after_withDev
  intro d hd
  have hsound := h.sound i d hd
  rw [hqueue] at hsound
  have hself (pc : Pc) : Sound drm w.crtcs (todo ++ w.unread) (pc.Painting i) i
      { d with pflipPending := false } :=
    hsound.handled.repaint fun hpainting => (hpaint i hpainting).elim
  have hother (pc : Pc) (j : Nat) (dj : FlipDev) (hne : j ≠ i) (hj : w.mem j = some dj) :
      Sound drm w.crtcs (todo ++ w.unread) (pc.Painting j) j dj := by
    have hsoundj := h.sound j dj hj
    rw [hqueue] at hsoundj
    apply (hsoundj.requeue _).repaint fun hpainting => (hpaint j hpainting).elim
    rw [List.count_cons_of_ne hne.symm]
  by_cases hcleanup : d.cleanup
  · rw [if_pos hcleanup]
    exact h.setDev hd rfl (hself (.events todo waiter)) (hother (.events todo waiter))
      (fun e he => ⟨he.crtc, he.fb⟩) trivial
  · rw [if_neg hcleanup]
    exact h.setDev hd rfl (hself (.drawDev i (.events todo waiter)))
      (hother (.drawDev i (.events todo waiter))) (fun e he => ⟨he.crtc, he.fb⟩)
      ⟨idle_setDev rfl fun hne => absurd rfl hne, trivial⟩

theorem after_stepHandleEvent (h : Inv drm w) (hbatch : w.pc.batch = [])
    (hpaint : ∀ i, ¬ w.pc.Painting i) (n : Nat) (waiter : Waiter) :
    After drm (w.stepHandleEvent n waiter) := by
  intro _
  have hqueue : (w.stepHandleEvent n waiter).queue = w.queue := by
    rw [queue, queue, hbatch]
    exact List.take_append_drop n w.unread
  refine ⟨fun i d hd => ?_, h.apart, trivial⟩
  rw [hqueue]
  exact (h.sound i d hd).repaint fun hpainting => absurd hpainting (hpaint i)

theorem after_stepCleanup (h : Inv drm w) (hpc : w.pc = .cleanup) : After drm w.stepCleanup := by
  unfold stepCleanup
  split
  · exact h.goto hpc rfl (fun _ => id) trivial
  · apply after_withDev
    intro d hd
    apply h.recolor hd
    · rfl
    · exact ⟨rfl, rfl, rfl, rfl, rfl⟩
    · rfl
    · rw [queue, queue, hpc]
      rfl
    · rw [hpc]
      exact fun _ => id
    · trivial

theorem after_stepWait (h : Inv drm w) (hpc : w.pc = .wait i) : After drm (w.stepWait i) := by
  apply after_withDev
  intro d hd
  split_ifs with hpending
  · refine h.goto hpc rfl (fun _ => id) fun e he => ?_
    obtain rfl := Option.some.inj (hd.symm.trans he)
    exact hpending
  · exact h.goto hpc rfl (fun _ => id) trivial

theorem after_stepRestore (h : Inv drm w) (hpc : w.pc = .restore i) (ok : Bool) :
    After drm (w.stepRestore i ok) := by
  have hgoto {v : World} (hv : Inv drm v) (hpcv : v.pc = .restore i) :
      After drm (v.goto (.destroy i)) := hv.goto hpcv rfl (fun _ => id) trivial
  apply after_withDev
  intro d hd
  by_cases hpending : d.pflipPending
  · rw [if_pos hpending]
    exact hgoto h hpc
  · rw [if_neg hpending]
    split
    · exact fun hlive => absurd trivial hlive
    · rename_i saved hsaved
      dsimp only
      split_ifs
      · apply hgoto
        · obtain ⟨-, hforeign⟩ := (h.sound i d hd).saved saved hsaved
          refine ⟨fun j dj hj => ?_, h.apart, ?_⟩
          · apply (h.sound j dj hj).rescan
            · intro c
              by_cases hc : c = saved.crtcId
              · subst hc
                simp [setCrtcState]
              · simp [setCrtcState, Function.update_of_ne hc]
            · intro c b hshown
              left
              by_cases hc : c = saved.crtcId
              · subst hc
                simp only [setCrtcState, Function.update_self] at hshown
                exact absurd ((h.sound j dj hj).gives b) (hforeign _ hshown)
              · simpa only [setCrtcState, Function.update_of_ne hc] using hshown
          · refine place_congr ?_ ?_ ?_ h.place
            · rfl
            · rfl
            · intro todo
              rw [hpc]
              exact Pc.noConfusion
        · exact hpc
      · exact hgoto h hpc

theorem rmFb_crtcs (w : World) (fb : UInt32) (c : UInt32) :
    ((w.rmFb fb).crtcs c).pending = (w.crtcs c).pending ∧
      ∀ shown, ((w.rmFb fb).crtcs c).scanout = some shown → (w.crtcs c).scanout = some shown := by
  unfold rmFb
  dsimp only
  split_ifs
  · exact ⟨rfl, fun _ hnone => absurd hnone (by simp)⟩
  · exact ⟨rfl, fun _ => id⟩

theorem after_stepDestroy (h : Inv drm w) (hpc : w.pc = .destroy i) :
    After drm (w.stepDestroy i) := by
  apply after_withDev
  intro d hd _
  have hmem {j : Nat} {dj : FlipDev} (hj : Function.update w.mem i none j = some dj) :
      w.mem j = some dj := by
    by_cases hij : j = i
    · subst hij
      rw [Function.update_self] at hj
      cases hj
    · rwa [Function.update_of_ne hij] at hj
  refine ⟨fun j dj hj => ?_, fun j k dj dk hj hk => h.apart j k dj dk (hmem hj) (hmem hk), trivial⟩
  have hsound := h.sound j dj (hmem hj)
  have hqueue : w.queue = w.unread := by
    rw [queue, hpc]
    rfl
  rw [hqueue] at hsound
  have hpaint : w.pc.Painting j → False := by
    rw [hpc]
    exact id
  apply Sound.rescan (hsound.repaint fun hpainting => (hpaint hpainting).elim)
  · intro c
    exact (rmFb_crtcs _ _ c).1.trans (rmFb_crtcs _ _ c).1
  · intro c b hshown
    exact Or.inl ((rmFb_crtcs _ _ c).2 _ ((rmFb_crtcs _ _ c).2 _ hshown))

end World

end PerfTools.X
