import PerfTools.X.Rectangles
import PerfTools.X.Vsync

/-!
# What modeset_prepare hands over

Every device has a CRTC of its own and two buffers that hold their rows, all zero, with ids that
no other buffer has: the framebuffers of the list stay with the kernel, so that none that comes
later has the id of one of them.
-/

namespace PerfTools.X

open Memory Exec

/-- The rows fit into the map, and the map is as large as the buffer says. -/
structure ModesetDev.Fits (d : ModesetDev) : Prop where
  stride : 4 * d.width ≤ d.stride
  rows : d.stride * d.height ≤ d.size
  size : d.size < 2 ^ 32
  map : d.map.length = d.size

theorem ModesetDev.Fits.mapped {d : ModesetDev} (h : d.Fits) {x y : Nat} (hx : x < d.width)
    (hy : y < d.height) : d.Mapped :=
  ⟨by omega, by omega, h.stride, h.rows, h.size, h.map⟩

/-- All pixels have one color. -/
def ModesetDev.Uniform (d : ModesetDev) : Prop :=
  ∃ value, ∀ x y, x < d.width → y < d.height → pixel d d.map x y = leBytes 4 value

theorem ModesetDev.Fits.uniform_zero {d : ModesetDev} (h : d.Fits)
    (hmap : d.map = List.replicate d.size 0) : d.Uniform := by
  refine ⟨0, fun x y hx hy => ?_⟩
  have hend := (h.mapped hx hy).pixel_end hx hy
  rw [pixel, window, hmap, List.drop_replicate, List.take_replicate, Nat.min_eq_left (by omega)]
  rfl

/-- A buffer as modeset_create_fb leaves it. -/
structure ModesetBuf.Created (drm : Drm) (buf : ModesetBuf) : Prop where
  fits : buf.Fits
  uniform : buf.Uniform
  given : drm.Gives buf.fb

/-- A device as modeset_setup_dev leaves it. -/
structure FlipDev.Created (drm : Drm) (d : FlipDev) : Prop where
  bufs : ∀ i, (d.bufs i).Created drm
  apart : (d.bufs 0).fb ≠ (d.bufs 1).fb
  front : d.frontBuf = 0
  saved : d.savedCrtc = none
  pending : d.pflipPending = false
  cleanup : d.cleanup = false

/-- Two devices share neither a CRTC nor a framebuffer. -/
structure FlipDev.Apart (d d' : FlipDev) : Prop where
  crtc : d.crtc ≠ d'.crtc
  fb : ∀ i j, (d.bufs i).fb ≠ (d'.bufs j).fb

theorem FlipDev.Apart.symm {d d' : FlipDev} (h : d.Apart d') : d'.Apart d :=
  ⟨h.crtc.symm, fun i j => (h.fb j i).symm⟩

/-- What holds between the rounds of modeset_prepare. -/
structure Prepared (drm : Drm) (s : FlipSetup) : Prop where
  created : ∀ d ∈ s.modesetList, d.Created drm
  apart : s.modesetList.Pairwise FlipDev.Apart
  live : ∀ d ∈ s.modesetList, ∀ i, (d.bufs i).fb ∈ liveFbs s.fbCalls

/-! ## Framebuffers that stay -/

/-- What the kernel had before the later calls it still has. -/
def Keeps (calls calls' : List FbCall) : Prop :=
  FreshIds calls' → FreshIds calls ∧ ∀ fb ∈ liveFbs calls, fb ∈ liveFbs calls'

theorem Keeps.refl (calls : List FbCall) : Keeps calls calls := fun h => ⟨h, fun _ => id⟩

theorem Keeps.add (fb : UInt32) (calls : List FbCall) : Keeps calls (.add fb :: calls) :=
  fun h => ⟨h.2, fun _ => List.mem_cons_of_mem _⟩

theorem Keeps.rm {fb : UInt32} {calls calls' : List FbCall} (h : Keeps (.add fb :: calls) calls') :
    Keeps calls (.rm fb :: calls') := by
  intro hfresh
  obtain ⟨⟨hnew, hcalls⟩, hstay⟩ := h hfresh
  refine ⟨hcalls, fun old hold => ?_⟩
  have hne : old ≠ fb := fun hsame => hnew (hsame ▸ hold)
  exact List.mem_filter.mpr ⟨hstay old (List.mem_cons_of_mem _ hold), by simpa using hne⟩

theorem Keeps.trans {calls calls' calls'' : List FbCall} (h : Keeps calls calls')
    (h' : Keeps calls' calls'') : Keeps calls calls'' := by
  intro hfresh
  obtain ⟨hfresh', hstay'⟩ := h' hfresh
  obtain ⟨hcalls, hstay⟩ := h hfresh'
  exact ⟨hcalls, fun fb hfb => hstay' fb (hstay fb hfb)⟩

namespace Vsync

variable {drm : Drm} {s : FlipSetup} {buf : ModesetBuf} {conn : Connector} {d : FlipDev}

theorem modesetCreateFb_created (hdrm : drm.Lawful) (width height : UInt16)
    (hwidth : buf.width = width.toNat) (hheight : buf.height = height.toNat) :
    wp (modesetCreateFb drm buf)
      (fun r s' => s'.modesetList = s.modesetList ∧ Keeps s.fbCalls s'.fbCalls ∧
        (r.1 = 0 → r.2.Created drm ∧ s'.fbCalls = .add r.2.fb :: s.fbCalls))
      (fun _ _ => False) s := by
  have herrno := hdrm.errno s.requests width.toNat height.toNat
  have hfails {x : Nat} (hx : x ≠ 0) {P : Prop} : (-(x : Int)) = 0 → P := fun h => by omega
  rw [modesetCreateFb, wp_bind, wp_get, wp_bind, wp_modify, hwidth, hheight]
  dsimp only
  split
  · rename_i x hx
    exact ⟨rfl, .refl _, hfails fun h => herrno.createDumb (h ▸ hx)⟩
  · rename_i creq hcreq
    obtain ⟨hpitch, hrows, hsize⟩ := hdrm.rows s.requests width height creq hcreq
    split
    · rename_i x hx
      exact ⟨rfl, .refl _, hfails fun h => herrno.addFb (h ▸ hx)⟩
    · rename_i fb hfb
      rw [wp_bind, wp_modify]
      have hundone : Keeps s.fbCalls (.rm fb :: .add fb :: s.fbCalls) := .rm (.refl _)
      split
      · rename_i x hx
        rw [wp_bind, wp_modify]
        exact ⟨rfl, hundone, hfails fun h => herrno.mapDumb (h ▸ hx)⟩
      · rename_i x _ hx
        rw [wp_bind, wp_modify]
        exact ⟨rfl, hundone, hfails fun h => herrno.mmap (h ▸ hx)⟩
      · refine ⟨rfl, .add fb _, fun _ => ?_⟩
        have hmod : creq.size.toNat % 2 ^ 32 = creq.size.toNat := Nat.mod_eq_of_lt hsize
        have hfits : (⟨⟨width.toNat, height.toNat, creq.pitch.toNat, creq.size.toNat % 2 ^ 32,
            List.replicate (creq.size.toNat % 2 ^ 32) 0⟩, creq.handle, fb⟩ : ModesetBuf).Fits :=
          ⟨hpitch, by rwa [hmod], by rwa [hmod], List.length_replicate⟩
        exact ⟨⟨hfits, hfits.uniform_zero rfl, _, width.toNat, height.toNat, hfb⟩, rfl⟩

theorem modesetSetupDev_created (hdrm : drm.Lawful) {res : Resources} {id : UInt32} :
    wp (modesetSetupDev drm res conn (.fresh id))
      (fun r s' => s'.modesetList = s.modesetList ∧ Keeps s.fbCalls s'.fbCalls ∧
        (r.1 = 0 → (FreshIds s'.fbCalls → r.2.Created drm) ∧ r.2.crtc ∉ s.used ∧
          s'.fbCalls = .add (r.2.bufs 1).fb :: .add (r.2.bufs 0).fb :: s.fbCalls))
      (fun _ _ => False) s := by
  have hfails {x : Int} (hx : x ≠ 0) {P : Prop} : -x = 0 → P := fun h => absurd (neg_eq_zero.mp h) hx
  unfold modesetSetupDev
  split_ifs
  · exact ⟨rfl, .refl _, hfails (by decide)⟩
  · split
    · exact ⟨rfl, .refl _, hfails (by decide)⟩
    · rename_i mode _ _
      rw [wp_bind, wp_get]
      split
      · exact ⟨rfl, .refl _, hfails (by decide)⟩
      · rename_i crtc hcrtc
        have hfree := (findCrtc_some hcrtc).2.1
        rw [wp_bind]
        apply wp_mono (modesetCreateFb_created hdrm mode.hdisplay mode.vdisplay rfl rfl) _
          fun _ _ h => h
        rintro ⟨ret, buf⟩ s₁ ⟨hlist₁, hkeeps₁, hfirst⟩
        dsimp only at hfirst ⊢
        rw [wp_ite]
        refine ⟨fun hret => ⟨hlist₁, hkeeps₁, fun h => absurd h hret⟩, fun hret => ?_⟩
        obtain ⟨hbuf, hcalls₁⟩ := hfirst (not_not.mp hret)
        rw [wp_bind]
        apply wp_mono (modesetCreateFb_created hdrm mode.hdisplay mode.vdisplay rfl rfl) _
          fun _ _ h => h
        rintro ⟨ret', buf'⟩ s₂ ⟨hlist₂, hkeeps₂, hsecond⟩
        dsimp only at hsecond ⊢
        have hlist := hlist₂.trans hlist₁
        rw [hcalls₁] at hkeeps₂ hsecond
        rw [wp_ite]
        refine ⟨fun hret' => ?_, fun hret' => ?_⟩
        · rw [wp_bind, wp_modify]
          exact ⟨hlist, hkeeps₂.rm, fun h => absurd h hret'⟩
        · obtain ⟨hbuf', hcalls₂⟩ := hsecond (not_not.mp hret')
          refine ⟨hlist, (Keeps.add _ _).trans hkeeps₂, fun _ =>
            ⟨fun hfresh => ⟨?_, ?_, rfl, rfl, rfl, rfl⟩, hfree, hcalls₂⟩⟩
          · rw [Fin.forall_fin_two]
            exact ⟨hbuf, hbuf'⟩
          · rw [hcalls₂] at hfresh
            intro hsame
            exact hfresh.1 (hsame ▸ List.mem_cons_self)

theorem prepareConnector_prepared (hdrm : drm.Lawful) {res : Resources} {id : UInt32}
    (hs : FreshIds s.fbCalls → Prepared drm s) :
    wp (prepareConnector drm res id) (fun _ s' => FreshIds s'.fbCalls → Prepared drm s')
      (fun _ _ => False) s := by
  unfold prepareConnector
  split
  · exact hs
  · rw [wp_bind]
    apply wp_mono (modesetSetupDev_created hdrm) _ fun _ _ h => h
    rintro ⟨ret, d⟩ s' ⟨hlist, hkeeps, hnew⟩
    have hs' (hfresh : FreshIds s'.fbCalls) : Prepared drm s' := by
      obtain ⟨hcalls, hstay⟩ := hkeeps hfresh
      obtain ⟨hcreated, hapart, hlive⟩ := hs hcalls
      rw [← hlist] at hcreated hapart hlive
      exact ⟨hcreated, hapart, fun d hd i => hstay _ (hlive d hd i)⟩
    rw [wp_runIf, wp_modify]
    refine ⟨fun hret hfresh => ?_, fun _ => hs'⟩
    change FreshIds s'.fbCalls at hfresh
    obtain ⟨hcreated, hcrtc, hcalls⟩ := hnew hret
    have hold := hs' hfresh
    constructor
    · rw [List.forall_mem_cons]
      exact ⟨hcreated hfresh, hold.created⟩
    · rw [List.pairwise_cons]
      refine ⟨fun d' hd' => ⟨?_, fun i j hfb => ?_⟩, hold.apart⟩
      · intro hsame
        exact hcrtc (List.mem_map.mpr ⟨d', hlist ▸ hd', hsame.symm⟩)
      · -- The framebuffers of the list were there when the two of the device came.
        rw [hcalls] at hfresh
        obtain ⟨hsecond, hfirst, hbefore⟩ := hfresh
        have hlive := (hs hbefore).live d' (hlist ▸ hd') j
        rw [← hfb] at hlive
        revert i
        rw [Fin.forall_fin_two]
        exact ⟨fun _ h => hfirst h, fun _ h => hsecond (List.mem_cons_of_mem _ h)⟩
    · rw [List.forall_mem_cons]
      refine ⟨?_, hold.live⟩
      change ∀ i, (d.bufs i).fb ∈ liveFbs s'.fbCalls
      rw [hcalls, Fin.forall_fin_two]
      exact ⟨List.mem_cons_of_mem _ List.mem_cons_self, List.mem_cons_self⟩

theorem prepareConnectors_prepared (hdrm : drm.Lawful) {res : Resources} {ids : List UInt32}
    (hs : FreshIds s.fbCalls → Prepared drm s) :
    wp (prepareConnectors drm res ids) (fun _ s' => FreshIds s'.fbCalls → Prepared drm s')
      (fun _ _ => False) s := by
  induction ids generalizing s with
  | nil => exact hs
  | cons id ids ih =>
    rw [prepareConnectors, wp_bind]
    exact wp_mono (prepareConnector_prepared hdrm hs) (fun _ _ hs' => ih hs') fun _ _ h => h

theorem modesetPrepare_prepared (hdrm : drm.Lawful) {ret : Int}
    (h : modesetPrepare drm .start = (.ok ret, s)) : Prepared drm s := by
  have hnone {d : FlipDev} {P : Prop} (hd : d ∈ FlipSetup.start.modesetList) : P :=
    (List.not_mem_nil hd).elim
  have hstart : Prepared drm .start := ⟨fun _ => hnone, .nil, fun _ => hnone⟩
  have hrun : wp (modesetPrepare drm) (fun _ s' => FreshIds s'.fbCalls → Prepared drm s')
      (fun _ _ => False) .start := by
    unfold modesetPrepare
    split
    · exact fun _ => hstart
    · simp only [wp_bind]
      exact prepareConnectors_prepared hdrm fun _ => hstart
  rw [wp_of_eq h] at hrun
  exact hrun (hdrm.ids _ _ h)

end Vsync

end PerfTools.X
