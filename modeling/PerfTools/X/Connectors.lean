import PerfTools.Lib.Numbers
import PerfTools.X.Modeset

/-!
# The modes of the connectors

modeset13 takes the index of a mode from the command line and uses it for every connector that a
display is plugged in to. Each connector has a list of modes of its own, and the index is
compared with the length of none.

The requests to the graphics driver are parameters: what it answers is the driver's.
-/

namespace PerfTools.X

open Memory Exec Numbers

/-- drmModeModeInfo: the two measures, and the bytes of the other members. -/
structure ModeInfo where
  hdisplay : UInt16
  vdisplay : UInt16
  rest : List UInt8
  deriving DecidableEq

inductive Connection
  | connected
  | disconnected
  | unknown
  deriving DecidableEq

/-- drmModeConnector -/
structure Connector where
  connectorId : UInt32
  encoderId : UInt32
  connection : Connection
  modes : List ModeInfo
  encoders : List UInt32

/-- drmModeEncoder -/
structure Encoder where
  crtcId : UInt32
  possibleCrtcs : UInt32

/-- drmModeRes; a mask of CRTCs is an unsigned int. -/
structure Resources where
  connectors : List UInt32
  crtcs : List UInt32
  few : crtcs.length ≤ 32

/-- What the driver tells of a new buffer. -/
structure DumbBuffer where
  pitch : UInt32
  size : UInt64
  handle : UInt32

/-- The answers to the four requests for one framebuffer, or their errno. -/
structure FbAnswers where
  createDumb : Except Nat DumbBuffer
  addFb : Except Nat UInt32
  mapDumb : Except Nat UInt64
  mmap : Except Nat Unit

/-- The driver. Framebuffers are asked for one after the other, by width and height. -/
structure Drm where
  resources : Except Nat Resources
  connector : UInt32 → Option Connector
  encoder : UInt32 → Option Encoder
  framebuffer : Nat → Nat → Nat → FbAnswers

/-- struct modeset_dev, as far as modeset_prepare fills it. -/
structure Device extends ModesetDev where
  handle : UInt32
  mode : ModeInfo
  fb : UInt32
  conn : UInt32
  crtc : UInt32

/-- A device after memset, for a connector. -/
def Device.fresh (conn : UInt32) : Device := ⟨⟨0, 0, 0, 0, []⟩, 0, ⟨0, 0, []⟩, 0, conn, 0⟩

/-- modeset_list, and how many framebuffers have been asked for. -/
structure Setup where
  modesetList : List Device
  requests : Nat

def Setup.start : Setup := ⟨[], 0⟩

def enoent : Int := 2
def efault : Int := 14

/-- modes[index] -/
def modeAt (modes : List ModeInfo) (index : Int) : Except Fault ModeInfo :=
  if index < 0 then .error .outOfBounds
  else match modes[index.toNat]? with
    | some mode => .ok mode
    | none => .error .outOfBounds

/-- The crtc as an int, or -1 when a device of the list uses it. -/
def unusedCrtc (devs : List Device) (crtc : UInt32) : Int :=
  if devs.any fun iter => iter.crtc = crtc then -1 else toInt crtc.toNat

/-- The loop over the CRTCs, from number j on, that an encoder works with. -/
def encoderCrtc (devs : List Device) (enc : Encoder) : Nat → List UInt32 → Option UInt32
  | _, [] => none
  | j, crtc :: crtcs =>
    if enc.possibleCrtcs.toNat.testBit j ∧ 0 ≤ unusedCrtc devs crtc then some crtc
    else encoderCrtc devs enc (j + 1) crtcs

section Preparing

variable (drm : Drm)

/-- The CRTC of the encoder that the connector is bound to. -/
def currentCrtc (devs : List Device) (conn : Connector) : Option UInt32 :=
  if conn.encoderId = 0 then none
  else match drm.encoder conn.encoderId with
    | some enc =>
      if enc.crtcId ≠ 0 ∧ 0 ≤ unusedCrtc devs enc.crtcId then some enc.crtcId else none
    | none => none

def modesetFindCrtc (res : Resources) (conn : Connector) (dev : Device) :
    Exec Setup (Int × Device) := do
  let s ← get
  match currentCrtc drm s.modesetList conn with
  | some crtc => return (0, { dev with crtc := crtc })
  | none =>
    match conn.encoders.findSome? fun id => (drm.encoder id).bind fun enc =>
      encoderCrtc s.modesetList enc 0 res.crtcs with
    | some crtc => return (0, { dev with crtc := crtc })
    | none => return (-enoent, dev)

/-- The size of a buffer has 64 bits in the answer and 32 in the device. -/
def modesetCreateFb (dev : Device) : Exec Setup (Int × Device) := do
  let answers := drm.framebuffer (← get).requests dev.width dev.height
  modify fun s => { s with requests := s.requests + 1 }
  match answers.createDumb with
  | .error errno => return (-errno, dev)
  | .ok creq =>
    let dev := { dev with
      stride := creq.pitch.toNat, size := creq.size.toNat % 2 ^ 32, handle := creq.handle }
    match answers.addFb with
    | .error errno => return (-errno, dev)
    | .ok fb =>
      let dev := { dev with fb := fb }
      match answers.mapDumb, answers.mmap with
      | .error errno, _ => return (-errno, dev)
      | .ok _, .error errno => return (-errno, dev)
      | .ok _, .ok () => return (0, { dev with map := List.replicate dev.size 0 })

def modesetSetupDev (res : Resources) (modeIndex : Int) (conn : Connector) (dev : Device) :
    Exec Setup (Int × Device) :=
  if conn.connection ≠ .connected then return (-enoent, dev)
  else if conn.modes.length = 0 then return (-efault, dev)
  else do
    let mode ← lift (modeAt conn.modes modeIndex)
    let dev := { dev with
      mode := mode, width := mode.hdisplay.toNat, height := mode.vdisplay.toNat }
    let (ret, dev) ← modesetFindCrtc drm res conn dev
    if ret ≠ 0 then return (ret, dev)
    else do
      let (ret, dev) ← modesetCreateFb drm dev
      if ret ≠ 0 then return (ret, dev) else return (0, dev)

/-- One round of the loop over the connectors. -/
def prepareConnector (res : Resources) (modeIndex : Int) (id : UInt32) : Exec Setup Unit :=
  match drm.connector id with
  | none => return ()
  | some conn => do
    let (ret, dev) ← modesetSetupDev drm res modeIndex conn (.fresh conn.connectorId)
    runIf (ret = 0) (modify fun s => { s with modesetList := dev :: s.modesetList })

def prepareConnectors (res : Resources) (modeIndex : Int) : List UInt32 → Exec Setup Unit
  | [] => return ()
  | id :: ids => do
    prepareConnector drm res modeIndex id
    prepareConnectors res modeIndex ids

def modesetPrepare (modeIndex : Int) : Exec Setup Int :=
  match drm.resources with
  | .error errno => return -errno
  | .ok res => do
    prepareConnectors drm res modeIndex res.connectors
    return 0

end Preparing

/-- The index of the mode: argv[1], or 13 without it. -/
def modeIndexOf (argument : Option CString) : Except Fault Int :=
  match argument with
  | some argument => atoi argument.chars
  | none => .ok 13

/-- main up to the return of modeset_prepare, on a card that can be opened. -/
def mainPrepare (drm : Drm) (argument : Option CString) : Exec Setup Int := do
  let modeIndex ← lift (modeIndexOf argument)
  modesetPrepare drm modeIndex

/-! ## Modes of their own -/

/-- The list has a mode with the index. -/
def HasMode (modeIndex : Int) (conn : Connector) : Prop :=
  0 ≤ modeIndex ∧ modeIndex < conn.modes.length

instance (modeIndex : Int) (conn : Connector) : Decidable (HasMode modeIndex conn) :=
  instDecidableAnd

/-- The device has the mode with the index, of its connector's list, and the measures of this
mode. -/
structure OwnMode (modeIndex : Int) (conn : Connector) (dev : Device) : Prop where
  connector : dev.conn = conn.connectorId
  mode : 0 ≤ modeIndex ∧ conn.modes[modeIndex.toNat]? = some dev.mode
  width : dev.width = dev.mode.hdisplay.toNat
  height : dev.height = dev.mode.vdisplay.toNat

/-- The driver lists the connector. -/
def Drm.Lists (drm : Drm) (conn : Connector) : Prop :=
  ∃ res, drm.resources = .ok res ∧ ∃ id ∈ res.connectors, drm.connector id = some conn

def Resources.keep (res : Resources) (kept : UInt32 → Bool) : Resources :=
  { res with connectors := res.connectors.filter kept }

/-- The connector has a mode with the index. -/
def Drm.keeps (drm : Drm) (modeIndex : Int) (id : UInt32) : Bool :=
  (drm.connector id).any fun conn => HasMode modeIndex conn

/-- The driver without the connectors that have none. -/
def Drm.withMode (drm : Drm) (modeIndex : Int) : Drm :=
  { drm with resources := drm.resources.map fun res => res.keep (drm.keeps modeIndex) }

/-- Every device has a mode of its own connector, and connectors without the mode are skipped: to
set them up fails and changes nothing, and without them the devices are the same. -/
structure Selected (drm : Drm) (argument : Option CString) (modeIndex : Int) : Prop where
  devices : ∃ ret s, mainPrepare drm argument .start = (.ok ret, s) ∧
    (∀ dev ∈ s.modesetList, ∃ conn, drm.Lists conn ∧ OwnMode modeIndex conn dev) ∧
    mainPrepare (drm.withMode modeIndex) argument .start = (.ok ret, s)
  skipped : ∀ res conn, drm.Lists conn → ¬ HasMode modeIndex conn → ∀ dev s, ∃ ret ≠ 0, ∃ dev',
    modesetSetupDev drm res modeIndex conn dev s = (.ok (ret, dev'), s)

/-- A connector that a display is plugged in to has the mode, or no modes. -/
def Suits (modeIndex : Int) (conn : Connector) : Prop :=
  conn.connection = .connected → conn.modes ≠ [] → HasMode modeIndex conn

theorem Suits.nil {modeIndex : Int} {conn : Connector} (h : Suits modeIndex conn)
    (hmode : ¬ HasMode modeIndex conn) (hconnected : conn.connection = .connected) :
    conn.modes = [] := by
  by_contra hmodes
  exact hmode (h hconnected hmodes)

section

variable {drm : Drm} {res : Resources} {modeIndex : Int} {conn : Connector} {dev : Device}
  {s : Setup}

theorem modeAt_ok (h : HasMode modeIndex conn) :
    ∃ mode, conn.modes[modeIndex.toNat]? = some mode ∧
      modeAt conn.modes modeIndex = .ok mode := by
  obtain ⟨hnonneg, hlt⟩ := h
  have hget := List.getElem?_eq_getElem (l := conn.modes) (i := modeIndex.toNat) (by omega)
  refine ⟨_, hget, ?_⟩
  rw [modeAt, if_neg (by omega), hget]

theorem modeAt_outside (h : ¬ HasMode modeIndex conn) :
    modeAt conn.modes modeIndex = .error .outOfBounds := by
  unfold modeAt
  split_ifs with hneg
  · rfl
  · have hlen : conn.modes.length ≤ modeIndex.toNat := by
      rw [HasMode] at h
      omega
    rw [List.getElem?_eq_none hlen]

/-- The members that only the selection of the mode sets. -/
structure SameMode (dev dev' : Device) : Prop where
  connector : dev'.conn = dev.conn
  mode : dev'.mode = dev.mode
  width : dev'.width = dev.width
  height : dev'.height = dev.height

theorem modesetFindCrtc_keeps :
    wp (modesetFindCrtc drm res conn dev)
      (fun r s' => SameMode dev r.2 ∧ s'.modesetList = s.modesetList) (fun _ _ => False) s := by
  rw [modesetFindCrtc, wp_bind, wp_get]
  split
  · exact ⟨⟨rfl, rfl, rfl, rfl⟩, rfl⟩
  · split
    · exact ⟨⟨rfl, rfl, rfl, rfl⟩, rfl⟩
    · exact ⟨⟨rfl, rfl, rfl, rfl⟩, rfl⟩

theorem modesetCreateFb_keeps :
    wp (modesetCreateFb drm dev)
      (fun r s' => SameMode dev r.2 ∧ s'.modesetList = s.modesetList) (fun _ _ => False) s := by
  rw [modesetCreateFb, wp_bind, wp_get, wp_bind, wp_modify]
  split
  · exact ⟨⟨rfl, rfl, rfl, rfl⟩, rfl⟩
  · split
    · exact ⟨⟨rfl, rfl, rfl, rfl⟩, rfl⟩
    · split <;> exact ⟨⟨rfl, rfl, rfl, rfl⟩, rfl⟩

theorem modesetSetupDev_own (hconnected : conn.connection = .connected) (h : HasMode modeIndex conn)
    (hdev : dev.conn = conn.connectorId) :
    wp (modesetSetupDev drm res modeIndex conn dev)
      (fun r s' => OwnMode modeIndex conn r.2 ∧ s'.modesetList = s.modesetList)
      (fun _ _ => False) s := by
  obtain ⟨mode, hget, hmode⟩ := modeAt_ok h
  have hmodes : conn.modes.length ≠ 0 := by
    rw [HasMode] at h
    omega
  have hown {dev' : Device} (hsame : SameMode { dev with
      mode := mode, width := mode.hdisplay.toNat, height := mode.vdisplay.toNat } dev') :
      OwnMode modeIndex conn dev' := by
    constructor
    · rw [hsame.connector, hdev]
    · rw [hsame.mode]
      exact ⟨h.1, hget⟩
    · rw [hsame.width, hsame.mode]
    · rw [hsame.height, hsame.mode]
  rw [modesetSetupDev, if_neg (not_not_intro hconnected), if_neg hmodes, hmode, lift_ok_bind,
    wp_bind]
  apply wp_mono modesetFindCrtc_keeps _ fun _ _ h => h
  intro r s₁ hfound
  rw [wp_ite, wp_bind]
  constructor
  · intro _
    exact ⟨hown hfound.1, hfound.2⟩
  · intro _
    apply wp_mono modesetCreateFb_keeps _ fun _ _ h => h
    intro r' s₂ hcreated
    have hsame := hown ⟨hcreated.1.connector.trans hfound.1.connector,
      hcreated.1.mode.trans hfound.1.mode, hcreated.1.width.trans hfound.1.width,
      hcreated.1.height.trans hfound.1.height⟩
    have hlist := hcreated.2.trans hfound.2
    rw [wp_ite]
    exact ⟨fun _ => ⟨hsame, hlist⟩, fun _ => ⟨hsame, hlist⟩⟩

/-- Without a display or without modes the set-up fails. -/
theorem modesetSetupDev_fails (h : conn.connection = .connected → conn.modes = [])
    (dev : Device) (s : Setup) :
    ∃ ret ≠ 0, modesetSetupDev drm res modeIndex conn dev s = (.ok (ret, dev), s) := by
  unfold modesetSetupDev
  split_ifs with hconnected hmodes
  · exact ⟨_, by decide, rfl⟩
  · exact ⟨_, by decide, rfl⟩
  · exact absurd (congrArg List.length (h (not_not.mp hconnected))) hmodes

theorem modesetSetupDev_outside (hconnected : conn.connection = .connected)
    (hmodes : conn.modes ≠ []) (h : ¬ HasMode modeIndex conn) :
    modesetSetupDev drm res modeIndex conn dev s = (.error (.fault .outOfBounds), s) := by
  rw [modesetSetupDev, if_neg (not_not_intro hconnected),
    if_neg (by simpa using hmodes), modeAt_outside h, lift_error_bind]
  rfl

/-! ## The loop over the connectors -/

/-- A connector without a display or without modes is skipped. -/
theorem prepareConnector_skips {id : UInt32}
    (h : ∀ conn, drm.connector id = some conn → conn.connection = .connected → conn.modes = []) :
    prepareConnector drm res modeIndex id s = (.ok (), s) := by
  cases hconn : drm.connector id with
  | none =>
    rw [prepareConnector, hconn]
    rfl
  | some conn =>
    obtain ⟨ret, hret, hrun⟩ : ∃ ret ≠ 0, modesetSetupDev drm res modeIndex conn
        (.fresh conn.connectorId) s = (.ok (ret, _), s) := modesetSetupDev_fails (h conn hconn) _ s
    rw [prepareConnector, hconn]
    simp only [bind_apply, hrun, runIf, if_neg hret]
    rfl

/-- Every device of the list has a mode of a connector in P. -/
def OwnModes (modeIndex : Int) (P : Connector → Prop) (s : Setup) : Prop :=
  ∀ dev ∈ s.modesetList, ∃ conn, P conn ∧ OwnMode modeIndex conn dev

theorem prepareConnector_ownModes {P : Connector → Prop} {id : UInt32}
    (hsuits : ∀ conn, drm.connector id = some conn → P conn ∧ Suits modeIndex conn)
    (hs : OwnModes modeIndex P s) :
    wp (prepareConnector drm res modeIndex id) (fun _ => OwnModes modeIndex P)
      (fun _ _ => False) s := by
  by_cases hmode : ∃ conn, drm.connector id = some conn ∧ conn.connection = .connected ∧
      HasMode modeIndex conn
  · obtain ⟨conn, hconn, hconnected, hhas⟩ := hmode
    simp only [prepareConnector, hconn]
    rw [wp_bind]
    apply wp_mono (modesetSetupDev_own hconnected hhas rfl) _ fun _ _ h => h
    intro r s' hset
    rw [wp_runIf, wp_modify, OwnModes, OwnModes, hset.2]
    refine ⟨fun _ => ?_, fun _ => hs⟩
    intro dev hdev
    rcases List.mem_cons.mp hdev with rfl | hdev
    · exact ⟨conn, (hsuits conn hconn).1, hset.1⟩
    · exact hs dev hdev
  · have hskip : prepareConnector drm res modeIndex id s = (.ok (), s) := by
      apply prepareConnector_skips
      intro conn hconn hconnected
      exact (hsuits conn hconn).2.nil (fun h => hmode ⟨conn, hconn, hconnected, h⟩) hconnected
    rw [wp_of_eq hskip]
    exact hs

theorem prepareConnectors_ownModes {P : Connector → Prop} {ids : List UInt32}
    (hsuits : ∀ id ∈ ids, ∀ conn, drm.connector id = some conn → P conn ∧ Suits modeIndex conn)
    (hs : OwnModes modeIndex P s) :
    wp (prepareConnectors drm res modeIndex ids) (fun _ => OwnModes modeIndex P)
      (fun _ _ => False) s := by
  induction ids generalizing s with
  | nil => exact hs
  | cons id ids ih =>
    rw [prepareConnectors, wp_bind]
    apply wp_mono (prepareConnector_ownModes (hsuits id (List.mem_cons_self ..)) hs) _
      fun _ _ h => h
    intro _ s' hs'
    exact ih (fun id' hid' => hsuits id' (List.mem_cons_of_mem _ hid')) hs'

/-- The connectors without the mode could as well not be there. -/
theorem prepareConnectors_filter {ids : List UInt32}
    (hsuits : ∀ id ∈ ids, ∀ conn, drm.connector id = some conn → Suits modeIndex conn) :
    prepareConnectors drm res modeIndex (ids.filter (drm.keeps modeIndex)) s =
      prepareConnectors drm res modeIndex ids s := by
  induction ids generalizing s with
  | nil => rfl
  | cons id ids ih =>
    have hrest (t : Setup) := ih (s := t) fun id' hid' => hsuits id' (List.mem_cons_of_mem _ hid')
    by_cases hkeep : drm.keeps modeIndex id
    · rw [List.filter_cons_of_pos hkeep, prepareConnectors, prepareConnectors, bind_apply,
        bind_apply]
      simp only [hrest]
    · have hskip : prepareConnector drm res modeIndex id s = (.ok (), s) := by
        apply prepareConnector_skips
        intro conn hconn hconnected
        apply (hsuits id (List.mem_cons_self ..) conn hconn).nil _ hconnected
        simpa [Drm.keeps, hconn] using hkeep
      rw [List.filter_cons_of_neg hkeep, hrest, prepareConnectors, bind_apply, hskip]

/-- Of the resources the set-up uses the CRTCs only. -/
theorem prepareConnectors_keep (drm : Drm) (modeIndex modeIndex' : Int)
    (kept : UInt32 → Bool) (ids : List UInt32) :
    prepareConnectors (drm.withMode modeIndex') (res.keep kept) modeIndex ids =
      prepareConnectors drm res modeIndex ids := by
  induction ids with
  | nil => rfl
  | cons id ids ih =>
    rw [prepareConnectors, prepareConnectors, ih]
    rfl

end

/-- The modes are selected as they should be exactly when every connector that a display is plugged
in to has the mode, or no modes. -/
theorem modes_selected_iff {drm : Drm} {argument : Option CString} {modeIndex : Int}
    (hindex : modeIndexOf argument = .ok modeIndex) :
    Selected drm argument modeIndex ↔ ∀ conn, drm.Lists conn → Suits modeIndex conn := by
  constructor
  · intro h conn hconn hconnected hmodes
    by_contra hmode
    have hlists := hconn
    obtain ⟨res, -⟩ := hlists
    obtain ⟨_, _, _, hrun⟩ := h.skipped res conn hconn hmode (.fresh 0) .start
    rw [modesetSetupDev_outside hconnected hmodes hmode] at hrun
    cases hrun
  · intro hsuits
    constructor
    · rw [mainPrepare, mainPrepare, hindex, lift_ok_bind, lift_ok_bind]
      cases hres : drm.resources with
      | error errno =>
        have hwith : (drm.withMode modeIndex).resources = .error errno := by
          rw [Drm.withMode, hres]
          rfl
        rw [modesetPrepare, modesetPrepare, hres, hwith]
        exact ⟨_, _, rfl, fun _ hdev => (List.not_mem_nil hdev).elim, rfl⟩
      | ok res =>
        have hwith : (drm.withMode modeIndex).resources = .ok (res.keep (drm.keeps modeIndex)) := by
          rw [Drm.withMode, hres]
          rfl
        have hids : ∀ id ∈ res.connectors, ∀ conn, drm.connector id = some conn →
            drm.Lists conn ∧ Suits modeIndex conn := by
          intro id hid conn hconn
          have hlists : drm.Lists conn := ⟨res, hres, id, hid, hconn⟩
          exact ⟨hlists, hsuits conn hlists⟩
        have hrun : wp (prepareConnectors drm res modeIndex res.connectors)
            (fun _ => OwnModes modeIndex drm.Lists) (fun _ _ => False) .start :=
          prepareConnectors_ownModes hids fun _ hdev => (List.not_mem_nil hdev).elim
        obtain ⟨_, s, hprepared, hown⟩ := returns_of_wp hrun
        rw [modesetPrepare, modesetPrepare, hres, hwith]
        refine ⟨0, s, ?_, hown, ?_⟩
        · simp only [bind_apply, hprepared]
          rfl
        · have hfiltered : prepareConnectors drm res modeIndex
              (res.keep (drm.keeps modeIndex)).connectors .start = (.ok (), s) :=
            (prepareConnectors_filter fun id hid conn hconn => (hids id hid conn hconn).2).trans
              hprepared
          simp only [prepareConnectors_keep, bind_apply, hfiltered]
          rfl
    · intro res conn hconn hmode dev s
      obtain ⟨ret, hret, hrun⟩ := modesetSetupDev_fails ((hsuits conn hconn).nil hmode) dev s
      exact ⟨ret, hret, dev, hrun⟩

/-- A display with one mode. -/
def oneDisplay : Drm where
  resources := .ok ⟨[7], [3], by decide⟩
  connector id := if id = 7 then some ⟨7, 1, .connected, [⟨1024, 768, []⟩], [1]⟩ else none
  encoder id := if id = 1 then some ⟨3, 1⟩ else none
  framebuffer _ _ _ := ⟨.ok ⟨4096, 3145728, 1⟩, .ok 5, .ok 0, .ok ()⟩

theorem oneDisplay_lists :
    oneDisplay.Lists ⟨7, 1, .connected, [⟨1024, 768, []⟩], [1]⟩ :=
  ⟨⟨[7], [3], by decide⟩, rfl, 7, by decide, rfl⟩

theorem modeIndexOf_decArg {n : Nat} (h : n < 2 ^ 31) :
    modeIndexOf (some (decArg n)) = .ok (n : Int) := by
  rw [modeIndexOf, atoi, decArg, decimal_decText]
  exact checked_of_range (by omega) (by omega)

def twoConnectors : Resources := ⟨[7, 8], [3, 4], by decide⟩

/-- Two displays, whose second modes are different ones of lists of different lengths. -/
def twoLists : Drm where
  resources := .ok twoConnectors
  connector id := some ⟨id, 1, .connected,
    if id = 7 then [⟨1024, 768, []⟩, ⟨640, 480, []⟩]
    else [⟨1920, 1080, []⟩, ⟨800, 600, []⟩, ⟨320, 200, []⟩], [1]⟩
  encoder _ := some ⟨3, 3⟩
  framebuffer n _ _ := ⟨.ok ⟨4096, 3145728, 1⟩, .ok (5 + n.toUInt32), .ok 0, .ok ()⟩

theorem selected_twoLists :
    Selected twoLists (some (decArg 1)) (1 : Nat) ∧
      (mainPrepare twoLists (some (decArg 1)) .start).2.modesetList.map
        (fun dev => (dev.conn, dev.mode)) = [(8, ⟨800, 600, []⟩), (7, ⟨640, 480, []⟩)] := by
  refine ⟨(modes_selected_iff (modeIndexOf_decArg (by decide))).mpr ?_, by decide +kernel⟩
  rintro conn ⟨res, hres, id, hid, hconn⟩ - -
  obtain rfl := Except.ok.inj hres
  obtain rfl := Option.some.inj hconn
  refine ⟨by decide, ?_⟩
  dsimp only
  split_ifs <;> decide

/-- Without an argument the mode is the one with index 13. -/
theorem default_not_selected :
    ¬ ∀ (drm : Drm) (argument : Option CString) (modeIndex : Int),
      modeIndexOf argument = .ok modeIndex → Selected drm argument modeIndex := by
  intro h
  have hskipped := (h oneDisplay none 13 rfl).skipped ⟨[7], [3], by decide⟩ _ oneDisplay_lists
    (by decide) (.fresh 7) .start
  obtain ⟨_, _, _, hrun⟩ := hskipped
  cases hrun

end PerfTools.X
