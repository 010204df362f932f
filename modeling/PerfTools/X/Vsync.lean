import PerfTools.Lib.Machine
import PerfTools.X.Crtcs

/-!
# Page flips

modeset-vsync has two buffers for every display. It draws into the one that is not shown, asks the
kernel to flip to it at the next vertical blank, and draws again when the kernel tells that this
has happened. At the end it waits for the flips that are still under way, and frees the devices.

The program and the kernel run at the same time: a vertical blank may come between any two steps
of the program, also between two stores of a frame. What the kernel answers, how many events a
read returns and the random numbers are the choice of the run.
-/

namespace PerfTools.X

open Memory Exec

/-- struct modeset_buf, with the bytes of its map. -/
structure ModesetBuf extends ModesetDev where
  handle : UInt32
  fb : UInt32

def ModesetBuf.fresh : ModesetBuf := ⟨⟨0, 0, 0, 0, []⟩, 0, 0⟩

/-- What drmModeGetCrtc tells of a CRTC: its id, and the framebuffer it shows. -/
structure SavedCrtc where
  crtcId : UInt32
  bufferId : Option UInt32
  deriving DecidableEq

/-- struct modeset_dev of modeset-vsync.c -/
structure FlipDev where
  frontBuf : Fin 2
  bufs : Fin 2 → ModesetBuf
  mode : ModeInfo
  conn : UInt32
  crtc : UInt32
  savedCrtc : Option SavedCrtc
  pflipPending : Bool
  cleanup : Bool
  r : UInt8
  g : UInt8
  b : UInt8
  rUp : Bool
  gUp : Bool
  bUp : Bool

namespace FlipDev

/-- A device after memset, for a connector. -/
def fresh (conn : UInt32) : FlipDev :=
  ⟨0, fun _ => .fresh, ⟨0, 0, []⟩, conn, 0, none, false, false, 0, 0, 0, false, false, false⟩

/-- front_buf ^ 1 -/
def backBuf (d : FlipDev) : Fin 2 := d.frontBuf + 1

def front (d : FlipDev) : ModesetBuf := d.bufs d.frontBuf

def back (d : FlipDev) : ModesetBuf := d.bufs d.backBuf

def setBuf (d : FlipDev) (i : Fin 2) (buf : ModesetBuf) : FlipDev :=
  { d with bufs := Function.update d.bufs i buf }

end FlipDev

/-! ## Setting up -/

/-- drmModeAddFB, with the id that it gives, and drmModeRmFB. -/
inductive FbCall
  | add (fb : UInt32)
  | rm (fb : UInt32)
  deriving DecidableEq

/-- The framebuffers that the kernel has after the calls; the last call is the head. -/
def liveFbs : List FbCall → List UInt32
  | [] => []
  | .add fb :: calls => fb :: liveFbs calls
  | .rm fb :: calls => (liveFbs calls).filter (· ≠ fb)

/-- No framebuffer has got the id of one that the kernel has. -/
def FreshIds : List FbCall → Prop
  | [] => True
  | .add fb :: calls => fb ∉ liveFbs calls ∧ FreshIds calls
  | .rm _ :: calls => FreshIds calls

/-- modeset_list, how many framebuffers have been asked for, and the calls for framebuffers. -/
structure FlipSetup where
  modesetList : List FlipDev
  requests : Nat
  fbCalls : List FbCall

namespace FlipSetup

def start : FlipSetup := ⟨[], 0, []⟩

def used (s : FlipSetup) : List UInt32 := s.modesetList.map fun dev => dev.crtc

def log (s : FlipSetup) (call : FbCall) : FlipSetup := { s with fbCalls := call :: s.fbCalls }

end FlipSetup

namespace Vsync

section Preparing

variable (drm : Drm)

/-- The size of a buffer has 64 bits in the answer and 32 in the buffer. -/
def modesetCreateFb (buf : ModesetBuf) : Exec FlipSetup (Int × ModesetBuf) := do
  let answers := drm.framebuffer (← get).requests buf.width buf.height
  modify fun s => { s with requests := s.requests + 1 }
  match answers.createDumb with
  | .error errno => return (-errno, buf)
  | .ok creq =>
    let buf := { buf with
      stride := creq.pitch.toNat, size := creq.size.toNat % 2 ^ 32, handle := creq.handle }
    match answers.addFb with
    | .error errno => return (-errno, buf)
    | .ok fb =>
      modify fun s => s.log (.add fb)
      let buf := { buf with fb := fb }
      match answers.mapDumb, answers.mmap with
      | .error errno, _ =>
        modify fun s => s.log (.rm fb)
        return (-errno, buf)
      | .ok _, .error errno =>
        modify fun s => s.log (.rm fb)
        return (-errno, buf)
      | .ok _, .ok () => return (0, { buf with map := List.replicate buf.size 0 })

/-- A device whose second framebuffer fails loses the first, too; it is not linked. -/
def modesetSetupDev (res : Resources) (conn : Connector) (dev : FlipDev) :
    Exec FlipSetup (Int × FlipDev) :=
  if conn.connection ≠ .connected then return (-enoent, dev)
  else match conn.modes with
    | [] => return (-efault, dev)
    | mode :: _ => do
      let measured (buf : ModesetBuf) : ModesetBuf :=
        { buf with width := mode.hdisplay.toNat, height := mode.vdisplay.toNat }
      let dev := { dev with mode := mode, bufs := fun i => measured (dev.bufs i) }
      match findCrtc drm (← get).used res conn with
      | none => return (-enoent, dev)
      | some crtc =>
        let dev := { dev with crtc := crtc }
        let (ret, buf) ← modesetCreateFb drm (dev.bufs 0)
        let dev := dev.setBuf 0 buf
        if ret ≠ 0 then return (ret, dev)
        else do
          let (ret, buf) ← modesetCreateFb drm (dev.bufs 1)
          let dev := dev.setBuf 1 buf
          if ret ≠ 0 then do
            modify fun s => s.log (.rm (dev.bufs 0).fb)
            return (ret, dev)
          else return (0, dev)

/-- One round of the loop over the connectors. -/
def prepareConnector (res : Resources) (id : UInt32) : Exec FlipSetup Unit :=
  match drm.connector id with
  | none => return ()
  | some conn => do
    let (ret, dev) ← modesetSetupDev drm res conn (.fresh conn.connectorId)
    runIf (ret = 0) (modify fun s => { s with modesetList := dev :: s.modesetList })

def prepareConnectors (res : Resources) : List UInt32 → Exec FlipSetup Unit
  | [] => return ()
  | id :: ids => do
    prepareConnector drm res id
    prepareConnectors res ids

def modesetPrepare : Exec FlipSetup Int :=
  match drm.resources with
  | .error errno => return -errno
  | .ok res => do
    prepareConnectors drm res res.connectors
    return 0

end Preparing

end Vsync

/-! ## The kernel -/

/-- What the kernel knows of a CRTC: the framebuffer it shows, and the flip it has been asked for,
with the framebuffer and the user's pointer. -/
structure CrtcState where
  scanout : Option UInt32
  pending : Option (UInt32 × Nat)

/-! ## The program -/

/-- Who has called drmHandleEvent: modeset_draw, or modeset_cleanup in its wait for a device. -/
inductive Waiter
  | draw
  | cleanup (iter : Nat)
  deriving DecidableEq

/-- Who has called modeset_draw_dev: the first loop of modeset_draw, or the handler of an event. -/
inductive Caller
  | outputs (todo : List Nat)
  | events (todo : List Nat) (waiter : Waiter)
  deriving DecidableEq

/-- Where the program is. Devices go by their addresses; a loop over devices, pixels or events
has those that are left. -/
inductive Pc
  | setCrtcs (todo : List Nat)
  | outputs (todo : List Nat)
  | drawDev (dev : Nat) (caller : Caller)
  | pixels (dev : Nat) (todo : List (Nat × Nat)) (caller : Caller)
  | flip (dev : Nat) (caller : Caller)
  | select
  | events (todo : List Nat) (waiter : Waiter)
  | cleanup
  | wait (iter : Nat)
  | read (iter : Nat)
  | restore (iter : Nat)
  | destroy (iter : Nat)
  | exited
  | useAfterFree
  | fault (f : Fault)
  deriving DecidableEq

/-- The memory of the devices, in which a device that has been freed is gone, modeset_list, the
CRTCs, and the events that can be read. -/
structure World where
  mem : Nat → Option FlipDev
  modesetList : List Nat
  crtcs : UInt32 → CrtcState
  unread : List Nat
  pc : Pc

/-- One step: a vertical blank of a CRTC, or a step of the program with what it is answered. -/
inductive Action
  | vblank (crtc : UInt32)
  | setCrtc (saved ok : Bool)
  | randomStart (r g b : Nat)
  | randomNext (r g b : Nat)
  | pageFlip (ok : Bool)
  | handleEvent (n : Nat)
  | handleFails
  | leave
  | restoreCrtc (ok : Bool)
  | next

namespace World

def goto (w : World) (pc : Pc) : World := { w with pc := pc }

def setDev (w : World) (i : Nat) (d : FlipDev) : World :=
  { w with mem := Function.update w.mem i (some d) }

def setCrtcState (w : World) (c : UInt32) (k : CrtcState) : World :=
  { w with crtcs := Function.update w.crtcs c k }

/-- An access to a device: one that has been freed is not there. -/
def withDev (w : World) (i : Nat) (f : FlipDev → World) : World :=
  match w.mem i with
  | some d => f d
  | none => w.goto .useAfterFree

/-- The vertical blank: a flip that was asked for happens, and its event can be read. -/
def vblank (w : World) (c : UInt32) : World :=
  match (w.crtcs c).pending with
  | none => w
  | some (fb, data) => { w.setCrtcState c ⟨some fb, none⟩ with unread := w.unread ++ [data] }

end World

/-- All pixels of a buffer, in the order of the two loops. -/
def pixelsOf (buf : ModesetBuf) : List (Nat × Nat) :=
  (List.range buf.height).flatMap fun j => (List.range buf.width).map fun k => (j, k)

/-- The byte that a color takes next, up or down by a random number modulo mod, and the direction;
a color that would wrap around stays and turns. -/
def nextColor (up : Bool) (cur : UInt8) (mod rand : Nat) : Bool × UInt8 :=
  let next := if up then cur + UInt8.ofNat (rand % mod) else cur - UInt8.ofNat (rand % mod)
  if up ∧ next < cur ∨ ¬ up ∧ cur < next then (!up, cur) else (up, next)

namespace FlipDev

/-- The colors of the next frame. -/
def recolor (d : FlipDev) (r g b : Nat) : FlipDev :=
  let (rUp, red) := nextColor d.rUp d.r 20 r
  let (gUp, green) := nextColor d.gUp d.g 10 g
  let (bUp, blue) := nextColor d.bUp d.b 5 b
  { d with r := red, g := green, b := blue, rUp := rUp, gUp := gUp, bUp := bUp }

/-- The value of all pixels of a frame. -/
def value (d : FlipDev) : Nat := color d.r.toNat d.g.toNat d.b.toNat

end FlipDev

/-- What modeset_draw_dev returns to. -/
def Caller.after : Caller → Pc
  | .outputs todo => .outputs todo
  | .events todo waiter => .events todo waiter

/-- What drmHandleEvent returns to. -/
def Waiter.after : Waiter → Pc
  | .draw => .select
  | .cleanup iter => .wait iter

namespace World

/-- The loop of main: the CRTC is saved and set to show the front buffer. -/
def stepSetCrtc (w : World) (i : Nat) (todo : List Nat) (saved ok : Bool) : World :=
  w.withDev i fun d =>
    let kernel := w.crtcs d.crtc
    let w := w.setDev i { d with
      savedCrtc := if saved then some ⟨d.crtc, kernel.scanout⟩ else none }
    let w := if ok then w.setCrtcState d.crtc { kernel with scanout := some d.front.fb } else w
    w.goto (.setCrtcs todo)

/-- The first colors of a device. -/
def stepRandomStart (w : World) (i : Nat) (todo : List Nat) (r g b : Nat) : World :=
  w.withDev i fun d =>
    (w.setDev i { d with
      r := UInt8.ofNat (r % 0xff), g := UInt8.ofNat (g % 0xff), b := UInt8.ofNat (b % 0xff)
      rUp := true, gUp := true, bUp := true }).goto (.drawDev i (.outputs todo))

/-- The first lines of modeset_draw_dev. -/
def stepRandomNext (w : World) (i : Nat) (caller : Caller) (r g b : Nat) : World :=
  w.withDev i fun d =>
    (w.setDev i (d.recolor r g b)).goto (.pixels i (pixelsOf d.back) caller)

/-- The store of one pixel in the back buffer. -/
def stepStore (w : World) (i : Nat) (j k : Nat) (todo : List (Nat × Nat)) (caller : Caller) :
    World :=
  w.withDev i fun d =>
    match drawPixel d.back.toModesetDev d.value j k d.back.map with
    | (.ok (), map) =>
      (w.setDev i (d.setBuf d.backBuf { d.back with map := map })).goto (.pixels i todo caller)
    | (.error (.fault f), _) => w.goto (.fault f)
    | (.error (.exit _), _) => w.goto .exited

/-- drmModePageFlip: a CRTC with a flip under way is busy. -/
def stepPageFlip (w : World) (i : Nat) (caller : Caller) (ok : Bool) : World :=
  w.withDev i fun d =>
    let kernel := w.crtcs d.crtc
    if ok ∧ kernel.pending = none then
      ((w.setCrtcState d.crtc { kernel with pending := some (d.back.fb, i) }).setDev i
        { d with frontBuf := d.backBuf, pflipPending := true }).goto caller.after
    else w.goto caller.after

/-- modeset_page_flip_event -/
def stepEvent (w : World) (i : Nat) (todo : List Nat) (waiter : Waiter) : World :=
  w.withDev i fun d =>
    (w.setDev i { d with pflipPending := false }).goto
      (if d.cleanup then .events todo waiter else .drawDev i (.events todo waiter))

/-- drmHandleEvent reads n of the events. -/
def stepHandleEvent (w : World) (n : Nat) (waiter : Waiter) : World :=
  { w with unread := w.unread.drop n, pc := .events (w.unread.take n) waiter }

/-- The next device of modeset_cleanup. -/
def stepCleanup (w : World) : World :=
  match w.modesetList with
  | [] => w.goto .exited
  | i :: rest =>
    w.withDev i fun d =>
      { w.setDev i { d with cleanup := true } with modesetList := rest, pc := .wait i }

/-- while (iter->pflip_pending) -/
def stepWait (w : World) (i : Nat) : World :=
  w.withDev i fun d => w.goto (if d.pflipPending then .read i else .restore i)

/-- Behind the wait the CRTC gets back what it showed, unless a flip is under way. -/
def stepRestore (w : World) (i : Nat) (ok : Bool) : World :=
  w.withDev i fun d =>
    if d.pflipPending then w.goto (.destroy i)
    else match d.savedCrtc with
      | none => w.goto (.fault .nullDeref)
      | some saved =>
        let kernel := w.crtcs saved.crtcId
        let w :=
          if ok then w.setCrtcState saved.crtcId { kernel with scanout := saved.bufferId } else w
        w.goto (.destroy i)

/-- A CRTC that shows a framebuffer which is removed is turned off. -/
def rmFb (w : World) (fb : UInt32) : World :=
  { w with crtcs := fun c =>
      if (w.crtcs c).scanout = some fb then { w.crtcs c with scanout := none } else w.crtcs c }

/-- The end of a round of modeset_cleanup: the framebuffers are destroyed, the device is freed. -/
def stepDestroy (w : World) (i : Nat) : World :=
  w.withDev i fun d =>
    let w := (w.rmFb (d.bufs 1).fb).rmFb (d.bufs 0).fb
    { w with mem := Function.update w.mem i none, pc := .cleanup }

/-- A step of the program that asks for nothing. -/
def stepNext (w : World) : Option World :=
  match w.pc with
  | .setCrtcs [] => some (w.goto (.outputs w.modesetList))
  | .outputs [] => some (w.goto .select)
  | .pixels i [] caller => some (w.goto (.flip i caller))
  | .pixels i ((j, k) :: todo) caller => some (w.stepStore i j k todo caller)
  | .events [] waiter => some (w.goto waiter.after)
  | .events (i :: todo) waiter => some (w.stepEvent i todo waiter)
  | .cleanup => some w.stepCleanup
  | .wait i => some (w.stepWait i)
  | .destroy i => some (w.stepDestroy i)
  | _ => none

/-- What a step does, where it is possible. -/
def step (w : World) : Action → Option World
  | .vblank c => some (w.vblank c)
  | .setCrtc saved ok =>
    match w.pc with
    | .setCrtcs (i :: todo) => some (w.stepSetCrtc i todo saved ok)
    | _ => none
  | .randomStart r g b =>
    match w.pc with
    | .outputs (i :: todo) => some (w.stepRandomStart i todo r g b)
    | _ => none
  | .randomNext r g b =>
    match w.pc with
    | .drawDev i caller => some (w.stepRandomNext i caller r g b)
    | _ => none
  | .pageFlip ok =>
    match w.pc with
    | .flip i caller => some (w.stepPageFlip i caller ok)
    | _ => none
  | .handleEvent n =>
    match w.pc with
    | .select => some (w.stepHandleEvent n .draw)
    | .read i => some (w.stepHandleEvent n (.cleanup i))
    | _ => none
  | .handleFails =>
    match w.pc with
    | .select => some w
    | .read i => some (w.goto (.restore i))
    | _ => none
  | .leave =>
    match w.pc with
    | .select => some (w.goto .cleanup)
    | _ => none
  | .restoreCrtc ok =>
    match w.pc with
    | .restore i => some (w.stepRestore i ok)
    | _ => none
  | .next => w.stepNext

end World

/-! ## Runs -/

/-- An error has a number. -/
structure FbAnswers.Numbered (answers : FbAnswers) : Prop where
  createDumb : answers.createDumb ≠ .error 0
  addFb : answers.addFb ≠ .error 0
  mapDumb : answers.mapDumb ≠ .error 0
  mmap : answers.mmap ≠ .error 0

/-- The driver's promises: a buffer holds the rows that are asked for, in fewer than 2^32 bytes, and
no two framebuffers have one id at the same time. -/
structure Drm.Lawful (drm : Drm) : Prop where
  errno : ∀ n width height, (drm.framebuffer n width height).Numbered
  rows : ∀ n (width height : UInt16) creq,
    (drm.framebuffer n width.toNat height.toNat).createDumb = .ok creq →
      4 * width.toNat ≤ creq.pitch.toNat ∧
        creq.pitch.toNat * height.toNat ≤ creq.size.toNat ∧ creq.size.toNat < 2 ^ 32
  ids : ∀ ret s, Vsync.modesetPrepare drm .start = (ret, s) → FreshIds s.fbCalls

/-- The driver gives a new framebuffer this id. -/
def Drm.Gives (drm : Drm) (fb : UInt32) : Prop :=
  ∃ n width height, (drm.framebuffer n width height).addFb = .ok fb

/-- Before the program starts no flip is under way, and no new framebuffer is shown. -/
structure Quiet (drm : Drm) (crtcs : UInt32 → CrtcState) : Prop where
  pending : ∀ c, (crtcs c).pending = none
  scanout : ∀ c fb, (crtcs c).scanout = some fb → ¬ drm.Gives fb

/-- main behind modeset_prepare. -/
def World.start (devs : List FlipDev) (crtcs : UInt32 → CrtcState) : World :=
  ⟨fun i => devs[i]?, List.range devs.length, crtcs, [], .setCrtcs (List.range devs.length)⟩

/-- The runs of the program and the kernel, of which every step is allowed. -/
def vsync (drm : Drm) (allowed : World → Action → Prop) : System World where
  start w := ∃ s crtcs, Vsync.modesetPrepare drm .start = (.ok 0, s) ∧ Quiet drm crtcs ∧
    w = .start s.modesetList crtcs
  step w w' := ∃ a, allowed w a ∧ w.step a = some w'

end PerfTools.X
