import PerfTools.X.Connectors

/-!
# One CRTC for each display

modeset_find_crtc is the same in all programs of the tutorial: the CRTC that the connector is
bound to, or else the first that one of its encoders works with, and in both cases none that a
device of the list has already. It fails exactly when there is no such CRTC.
-/

namespace PerfTools.X

open Memory Exec Numbers

/-- The crtc as an int, or -1 when it is in use. -/
def unused (used : List UInt32) (crtc : UInt32) : Int :=
  if crtc ∈ used then -1 else toInt crtc.toNat

/-- The loop over the CRTCs, from number j on, that an encoder works with. -/
def firstUnused (used : List UInt32) (enc : Encoder) : Nat → List UInt32 → Option UInt32
  | _, [] => none
  | j, crtc :: crtcs =>
    if enc.possibleCrtcs.toNat.testBit j ∧ 0 ≤ unused used crtc then some crtc
    else firstUnused used enc (j + 1) crtcs

/-- The CRTC of the encoder that the connector is bound to. -/
def boundCrtc (drm : Drm) (used : List UInt32) (conn : Connector) : Option UInt32 :=
  if conn.encoderId = 0 then none
  else match drm.encoder conn.encoderId with
    | some enc => if enc.crtcId ≠ 0 ∧ 0 ≤ unused used enc.crtcId then some enc.crtcId else none
    | none => none

/-- modeset_find_crtc, with the CRTCs of the devices in the list. -/
def findCrtc (drm : Drm) (used : List UInt32) (res : Resources) (conn : Connector) :
    Option UInt32 :=
  match boundCrtc drm used conn with
  | some crtc => some crtc
  | none => conn.encoders.findSome? fun id => (drm.encoder id).bind fun enc =>
      firstUnused used enc 0 res.crtcs

/-- The connector is bound to the CRTC. -/
def BoundTo (drm : Drm) (conn : Connector) (crtc : UInt32) : Prop :=
  conn.encoderId ≠ 0 ∧ crtc ≠ 0 ∧
    ∃ enc, drm.encoder conn.encoderId = some enc ∧ enc.crtcId = crtc

/-- An encoder of the connector works with the CRTC. -/
def Drivable (drm : Drm) (res : Resources) (conn : Connector) (crtc : UInt32) : Prop :=
  ∃ id ∈ conn.encoders, ∃ enc, drm.encoder id = some enc ∧
    ∃ j, res.crtcs[j]? = some crtc ∧ enc.possibleCrtcs.toNat.testBit j = true

/-- The CRTC can show what the connector is to show. -/
def Works (drm : Drm) (res : Resources) (conn : Connector) (crtc : UInt32) : Prop :=
  BoundTo drm conn crtc ∨ Drivable drm res conn crtc

/-- The CRTC is free, and its id is not negative as an int. -/
def Free (used : List UInt32) (crtc : UInt32) : Prop := crtc ∉ used ∧ crtc.toNat < 2 ^ 31

section

variable {drm : Drm} {used : List UInt32} {res : Resources} {conn : Connector} {enc : Encoder}
  {crtc : UInt32}

theorem unused_nonneg_iff : 0 ≤ unused used crtc ↔ Free used crtc := by
  have hlt := crtc.toNat_lt
  have hcases := toInt_cases (n := crtc.toNat) (by omega)
  unfold unused Free
  split_ifs with hused
  · simp [hused]
  · rw [and_iff_right hused]
    omega

theorem firstUnused_some {j : Nat} {crtcs : List UInt32}
    (h : firstUnused used enc j crtcs = some crtc) :
    Free used crtc ∧ ∃ k, crtcs[k]? = some crtc ∧ enc.possibleCrtcs.toNat.testBit (j + k) = true := by
  induction crtcs generalizing j with
  | nil => cases h
  | cons c crtcs ih =>
    rw [firstUnused] at h
    split_ifs at h with hfits
    · obtain rfl := Option.some.inj h
      exact ⟨unused_nonneg_iff.mp hfits.2, 0, rfl, hfits.1⟩
    · obtain ⟨hfree, k, hk, hbit⟩ := ih h
      refine ⟨hfree, k + 1, hk, ?_⟩
      rwa [Nat.add_assoc, Nat.add_comm 1] at hbit

theorem firstUnused_none {j : Nat} {crtcs : List UInt32} (h : firstUnused used enc j crtcs = none)
    {k : Nat} (hk : crtcs[k]? = some crtc)
    (hbit : enc.possibleCrtcs.toNat.testBit (j + k) = true) : ¬ Free used crtc := by
  induction crtcs generalizing j k with
  | nil => simp at hk
  | cons c crtcs ih =>
    rw [firstUnused] at h
    split_ifs at h with hfits
    cases k with
    | zero =>
      obtain rfl := Option.some.inj hk
      exact fun hfree => hfits ⟨hbit, unused_nonneg_iff.mpr hfree⟩
    | succ k =>
      rw [Nat.add_comm k, ← Nat.add_assoc] at hbit
      exact ih h hk hbit

theorem boundCrtc_eq_some :
    boundCrtc drm used conn = some crtc ↔ BoundTo drm conn crtc ∧ Free used crtc := by
  unfold boundCrtc BoundTo
  split_ifs with hbound
  · simp [hbound]
  · cases henc : drm.encoder conn.encoderId with
    | none => simp
    | some enc =>
      constructor
      · intro h
        dsimp only at h
        split_ifs at h with hfits
        obtain rfl := Option.some.inj h
        exact ⟨⟨hbound, hfits.1, enc, rfl, rfl⟩, unused_nonneg_iff.mp hfits.2⟩
      · rintro ⟨⟨-, hne, enc', hsome, rfl⟩, hfree⟩
        obtain rfl := Option.some.inj hsome
        exact if_pos ⟨hne, unused_nonneg_iff.mpr hfree⟩

theorem findCrtc_some (h : findCrtc drm used res conn = some crtc) :
    Works drm res conn crtc ∧ Free used crtc := by
  unfold findCrtc at h
  split at h
  · rename_i bound hbound
    obtain rfl := Option.some.inj h
    obtain ⟨hworks, hfree⟩ := boundCrtc_eq_some.mp hbound
    exact ⟨Or.inl hworks, hfree⟩
  · obtain ⟨id, hid, hfound⟩ := List.exists_of_findSome?_eq_some h
    obtain ⟨enc, henc, hcrtc⟩ := Option.bind_eq_some_iff.mp hfound
    obtain ⟨hfree, k, hk, hbit⟩ := firstUnused_some hcrtc
    rw [Nat.zero_add] at hbit
    exact ⟨Or.inr ⟨id, hid, enc, henc, k, hk, hbit⟩, hfree⟩

/-- None is found exactly when none that works is free. -/
theorem findCrtc_eq_none_iff :
    findCrtc drm used res conn = none ↔ ∀ crtc, Works drm res conn crtc → ¬ Free used crtc := by
  constructor
  · intro h crtc hworks hfree
    unfold findCrtc at h
    split at h
    · cases h
    · rename_i hbound
      rcases hworks with hworks | ⟨id, hid, enc, henc, j, hj, hbit⟩
      · rw [boundCrtc_eq_some.mpr ⟨hworks, hfree⟩] at hbound
        cases hbound
      · have hnone := List.findSome?_eq_none_iff.mp h id hid
        rw [henc, Option.bind_some] at hnone
        exact firstUnused_none hnone hj ((Nat.zero_add j).symm ▸ hbit) hfree
  · intro h
    cases hfound : findCrtc drm used res conn with
    | none => rfl
    | some crtc =>
      obtain ⟨hworks, hfree⟩ := findCrtc_some hfound
      exact absurd hfree (h crtc hworks)

end

/-! ## The devices of modeset13 -/

/-- The CRTCs of the list. -/
def Setup.used (s : Setup) : List UInt32 := s.modesetList.map fun dev => dev.crtc

section

variable {drm : Drm} {res : Resources} {conn : Connector} {dev : Device} {modeIndex : Int}
  {s : Setup}

theorem unusedCrtc_eq (devs : List Device) (crtc : UInt32) :
    unusedCrtc devs crtc = unused (devs.map fun dev => dev.crtc) crtc := by
  have hany : (devs.any fun iter => iter.crtc = crtc) = true ↔
      crtc ∈ devs.map fun dev => dev.crtc := by
    rw [List.any_eq_true, List.mem_map]
    simp only [decide_eq_true_eq]
  unfold unusedCrtc unused
  simp only [hany]

theorem encoderCrtc_eq (devs : List Device) (enc : Encoder) (j : Nat) (crtcs : List UInt32) :
    encoderCrtc devs enc j crtcs = firstUnused (devs.map fun dev => dev.crtc) enc j crtcs := by
  induction crtcs generalizing j with
  | nil => rfl
  | cons crtc crtcs ih => rw [encoderCrtc, firstUnused, unusedCrtc_eq, ih]

theorem currentCrtc_eq (devs : List Device) :
    currentCrtc drm devs conn = boundCrtc drm (devs.map fun dev => dev.crtc) conn := by
  unfold currentCrtc boundCrtc
  split_ifs
  · rfl
  · cases drm.encoder conn.encoderId with
    | none => rfl
    | some enc => simp only [unusedCrtc_eq]

theorem modesetFindCrtc_eq : modesetFindCrtc drm res conn dev s =
    match findCrtc drm s.used res conn with
    | some crtc => (.ok (0, { dev with crtc := crtc }), s)
    | none => (.ok (-enoent, dev), s) := by
  rw [modesetFindCrtc, bind_apply]
  simp only [Exec.get, currentCrtc_eq, encoderCrtc_eq]
  unfold findCrtc
  rw [← Setup.used]
  cases hbound : boundCrtc drm s.used conn with
  | some crtc => rfl
  | none =>
    dsimp only
    generalize (conn.encoders.findSome? fun id => _) = found
    cases found <;> rfl

theorem wp_modesetFindCrtc {Q : Int × Device → Setup → Prop} {E : Stop → Setup → Prop} :
    wp (modesetFindCrtc drm res conn dev) Q E s ↔
      (∀ crtc, findCrtc drm s.used res conn = some crtc → Q (0, { dev with crtc := crtc }) s) ∧
      (findCrtc drm s.used res conn = none → Q (-enoent, dev) s) := by
  unfold wp
  rw [modesetFindCrtc_eq]
  cases findCrtc drm s.used res conn <;> simp

/-- A device that is set up has a CRTC that works with its connector and that no other has. -/
structure OwnCrtc (drm : Drm) (res : Resources) (used : List UInt32) (conn : Connector)
    (dev : Device) : Prop where
  works : Works drm res conn dev.crtc
  free : Free used dev.crtc
  conn : dev.conn = conn.connectorId

theorem modesetCreateFb_crtc : wp (modesetCreateFb drm dev)
    (fun r s' => r.2.crtc = dev.crtc ∧ r.2.conn = dev.conn ∧ s'.modesetList = s.modesetList)
    (fun _ _ => False) s := by
  rw [modesetCreateFb, wp_bind, wp_get, wp_bind, wp_modify]
  split
  · exact ⟨rfl, rfl, rfl⟩
  · split
    · exact ⟨rfl, rfl, rfl⟩
    · split <;> exact ⟨rfl, rfl, rfl⟩

/-- A set-up that succeeds finds such a CRTC; one that stops does so before it links anything. -/
theorem modesetSetupDev_crtc (hdev : dev.conn = conn.connectorId) :
    wp (modesetSetupDev drm res modeIndex conn dev)
      (fun r s' => s'.modesetList = s.modesetList ∧
        (r.1 = 0 → OwnCrtc drm res s.used conn r.2))
      (fun _ s' => s'.modesetList = s.modesetList) s := by
  have hneg {e : Int} (he : e ≠ 0) {P : Prop} : -e = 0 → P := fun h => absurd (neg_eq_zero.mp h) he
  unfold modesetSetupDev
  split_ifs
  · exact ⟨rfl, hneg (by decide)⟩
  · exact ⟨rfl, hneg (by decide)⟩
  · rw [wp_bind, wp_lift]
    refine ⟨fun mode _ => ?_, fun _ _ => rfl⟩
    rw [wp_bind, wp_modesetFindCrtc]
    constructor
    · intro crtc hfound
      obtain ⟨hworks, hfree⟩ := findCrtc_some hfound
      dsimp only
      rw [if_neg (not_not_intro rfl), wp_bind]
      apply wp_mono modesetCreateFb_crtc _ fun _ _ h => h.elim
      rintro ⟨ret, dev'⟩ s' ⟨hcrtc, hconn, hlist⟩
      dsimp only at hcrtc hconn ⊢
      rw [wp_ite]
      refine ⟨fun hret => ⟨hlist, fun h => absurd h hret⟩, fun _ => ⟨hlist, fun _ => ?_⟩⟩
      exact ⟨hcrtc.symm ▸ hworks, hcrtc.symm ▸ hfree, hconn.trans hdev⟩
    · intro _
      exact ⟨rfl, hneg (by decide)⟩

end

/-- Every device of the list has a CRTC of its own, which works with its connector. -/
structure CrtcsAssigned (drm : Drm) (res : Resources) (s : Setup) : Prop where
  works : ∀ dev ∈ s.modesetList, ∃ id ∈ res.connectors, ∃ conn, drm.connector id = some conn ∧
    dev.conn = conn.connectorId ∧ Works drm res conn dev.crtc
  distinct : s.used.Nodup

section

variable {drm : Drm} {res : Resources} {modeIndex : Int}

theorem prepareConnector_crtcs {id : UInt32} (hid : id ∈ res.connectors) (s : Setup)
    (hs : CrtcsAssigned drm res s) :
    wp (prepareConnector drm res modeIndex id) (fun _ => CrtcsAssigned drm res)
      (fun _ => CrtcsAssigned drm res) s := by
  have hsame {s' : Setup} (hlist : s'.modesetList = s.modesetList) : CrtcsAssigned drm res s' :=
    ⟨hlist.symm ▸ hs.works, by rw [Setup.used, hlist]; exact hs.distinct⟩
  unfold prepareConnector
  split
  · exact hs
  · rename_i conn hconn
    rw [wp_bind]
    apply wp_mono (modesetSetupDev_crtc rfl) _ fun _ _ => hsame
    rintro ⟨ret, dev⟩ s' ⟨hlist, hown⟩
    rw [wp_runIf, wp_modify]
    refine ⟨fun hret => ⟨?_, ?_⟩, fun _ => hsame hlist⟩
    · have hdev := hown hret
      intro dev' hdev'
      rcases List.mem_cons.mp hdev' with rfl | hdev'
      · exact ⟨id, hid, conn, hconn, hdev.conn, hdev.works⟩
      · exact hs.works dev' (hlist ▸ hdev')
    · rw [Setup.used, List.map_cons, hlist, List.nodup_cons]
      exact ⟨(hown hret).free.1, hs.distinct⟩

theorem prepareConnectors_crtcs {ids : List UInt32} (hids : ∀ id ∈ ids, id ∈ res.connectors)
    (s : Setup) (hs : CrtcsAssigned drm res s) :
    wp (prepareConnectors drm res modeIndex ids) (fun _ => CrtcsAssigned drm res)
      (fun _ => CrtcsAssigned drm res) s := by
  induction ids generalizing s with
  | nil => exact hs
  | cons id ids ih =>
    rw [prepareConnectors, wp_bind]
    apply wp_mono (prepareConnector_crtcs (hids id List.mem_cons_self) s hs) _ fun _ _ h => h
    exact fun _ s' hs' => ih (fun id' hid' => hids id' (List.mem_cons_of_mem _ hid')) s' hs'

end

/-- Whatever the driver answers and whichever mode is asked for, and also when the set-up stops
half-way, no two devices of the list share a CRTC, and each CRTC works with its connector. -/
theorem crtcs_assigned (drm : Drm) (argument : Option CString) :
    ∀ res, drm.resources = .ok res → CrtcsAssigned drm res (mainPrepare drm argument .start).2 := by
  intro res hres
  have hstart : CrtcsAssigned drm res .start := ⟨fun _ hdev => (List.not_mem_nil hdev).elim, .nil⟩
  apply last_of_wp
  rw [mainPrepare, wp_bind, wp_lift]
  refine ⟨fun modeIndex _ => ?_, fun _ _ => hstart⟩
  rw [modesetPrepare, hres]
  simp only [wp_bind]
  exact prepareConnectors_crtcs (fun _ hid => hid) .start hstart

/-- Two displays that share the one encoder which works with both CRTCs. -/
def twoDisplays : Drm where
  resources := .ok twoConnectors
  connector id := some ⟨id, 1, .connected, [⟨1024, 768, []⟩], [1]⟩
  encoder _ := some ⟨3, 3⟩
  framebuffer n _ _ := ⟨.ok ⟨4096, 3145728, 1⟩, .ok (5 + n.toUInt32), .ok 0, .ok ()⟩

/-- The first takes one CRTC, and the second the other one. -/
theorem crtcs_assigned_twoDisplays :
    (mainPrepare twoDisplays (some (decArg 0)) .start).2.modesetList.map
      (fun dev => (dev.conn, dev.crtc)) = [(8, 4), (7, 3)] ∧
    CrtcsAssigned twoDisplays twoConnectors
      (mainPrepare twoDisplays (some (decArg 0)) .start).2 :=
  ⟨by decide +kernel, crtcs_assigned twoDisplays (some (decArg 0)) _ rfl⟩

end PerfTools.X
