import Mathlib.Data.List.Nodup
import PerfTools.Lib.Exec

/-!
# The multicast message of mydemo.c

The kernel module sends its counter and the next number in one generic netlink message, as
attributes 1 and 2; the program in net/genetlink/main.c prints the two numbers. The libraries on
both sides are given by their functions. `Documented` says what the two programs rely on: how much
room a new message has, what an attribute takes of it, and that parsing finds what was put.
-/

namespace PerfTools.Net

open Memory Exec

/-- The netlink functions in the kernel and in libnl. The attributes of a message are bytes. -/
structure Netlink where
  Skb : Type
  skbTailroom : Skb → Nat
  genlmsgNew : Nat → Option Skb
  genlmsgPut : Skb → Nat → Option Skb
  nlaPutU32 : Skb → Nat → UInt32 → Option Skb
  genlmsgEnd : Skb → List UInt8
  Attr : Type
  nlaParse : Nat → List UInt8 → Option (Nat → Option Attr)
  nlaGetU32 : Attr → UInt32
  nbdAttrMax : Nat

/-- NLA_ALIGN -/
def nlaAlign (n : Nat) : Nat := (n + 3) / 4 * 4

/-- nla_total_size; an attribute has a header of four bytes. -/
def nlaTotalSize (payload : Nat) : Nat := nlaAlign (4 + payload)

/-- The netlink header and the generic netlink header. -/
def headersSize : Nat := 20

/-- NBD_ATTR_INDEX -/
def nbdAttrIndex : Nat := 1

/-- An attribute with an unsigned int: its length, its type and its payload, which needs no
padding. -/
def attrBytes (type : Nat) (value : UInt32) : List UInt8 :=
  leBytes 2 8 ++ leBytes 2 type ++ leBytes 4 value.toNat

/-- The attributes that are put into a message. -/
def attrsBytes (attrs : List (Nat × UInt32)) : List UInt8 := attrs.flatMap fun a => attrBytes a.1 a.2

/-- What the two programs rely on. A new message may be refused; otherwise it has room for the
headers and for the payload that was asked for, and no more. -/
structure Netlink.Documented (lib : Netlink) : Prop where
  new : ∀ n skb, lib.genlmsgNew n = some skb → lib.skbTailroom skb = headersSize + n
  put : ∀ skb cmd, headersSize ≤ lib.skbTailroom skb → ∃ skb', lib.genlmsgPut skb cmd = some skb' ∧
    lib.skbTailroom skb' = lib.skbTailroom skb - headersSize ∧ lib.genlmsgEnd skb' = []
  full : ∀ skb type value, lib.skbTailroom skb < nlaTotalSize 4 →
    lib.nlaPutU32 skb type value = none
  attr : ∀ skb type value, nlaTotalSize 4 ≤ lib.skbTailroom skb →
    ∃ skb', lib.nlaPutU32 skb type value = some skb' ∧
      lib.skbTailroom skb' = lib.skbTailroom skb - nlaTotalSize 4 ∧
      lib.genlmsgEnd skb' = lib.genlmsgEnd skb ++ attrBytes type value
  parse : ∀ attrs : List (Nat × UInt32), (attrs.map Prod.fst).Nodup →
    (∀ a ∈ attrs, 1 ≤ a.1 ∧ a.1 ≤ lib.nbdAttrMax) →
    ∃ table, lib.nlaParse lib.nbdAttrMax (attrsBytes attrs) = some table ∧
      ∀ a ∈ attrs, ∃ attr, table a.1 = some attr ∧ lib.nlaGetU32 attr = a.2
  maxAttr : 2 ≤ lib.nbdAttrMax

section

variable (lib : Netlink)

/-! ## The sender -/

/-- The body of my_mcast with the payload that the new message is asked for. The result is what
is sent; in the other cases the message has been freed. -/
def buildMcast (payload : Nat) (a b : UInt32) : Option (List UInt8) := do
  let skb ← lib.genlmsgNew payload
  let skb ← lib.genlmsgPut skb 0xcc
  let skb ← lib.nlaPutU32 skb 1 a
  let skb ← lib.nlaPutU32 skb 2 b
  return lib.genlmsgEnd skb

def myMcast (a b : UInt32) : Option (List UInt8) := buildMcast lib (nlaTotalSize 4) a b

/-- What my_mcast_trigger works on, and what has been sent. -/
structure MyState where
  systemWqCount : UInt32
  sent : List (List UInt8)

/-- One run of my_mcast_trigger; the int wraps. -/
def myMcastTrigger (s : MyState) : MyState where
  systemWqCount := s.systemWqCount + 1
  sent := s.sent ++ (myMcast lib s.systemWqCount (s.systemWqCount + 1)).toList

/-! ## The receiver -/

/-- nla_get_u32 of an entry of the table; the entry of an absent attribute is null. -/
def readAttr (attr : Option lib.Attr) : Except Stop UInt32 :=
  match attr with
  | none => .error (.fault .nullDeref)
  | some attr => .ok (lib.nlaGetU32 attr)

/-- mcast_callback; the result is what it prints. err ends the program. -/
def mcastCallback (msg : List UInt8) : Except Stop (UInt32 × UInt32) :=
  match lib.nlaParse lib.nbdAttrMax msg with
  | none => .error (.exit (-1))
  | some msgAttr =>
    if (msgAttr nbdAttrIndex).isNone then .error (.exit (-1))
    else do
      let index ← readAttr lib (msgAttr nbdAttrIndex)
      let b ← readAttr lib (msgAttr 2)
      return (index, b)

/-- An attribute that parsing finds in a message. -/
def Carries (msg : List UInt8) (type : Nat) : Prop :=
  ∃ table, lib.nlaParse lib.nbdAttrMax msg = some table ∧ (table type).isSome

/-- The message for the counter is sent with both attributes and read back. -/
def RoundTrip (mcast : UInt32 → UInt32 → Option (List UInt8)) (c : UInt32) : Prop :=
  ∃ msg, mcast c (c + 1) = some msg ∧ Carries lib msg 1 ∧ Carries lib msg 2 ∧
    mcastCallback lib msg = .ok (c, c + 1)

end

/-! ## The size of the message -/

section

variable {lib : Netlink} (h : lib.Documented)
include h

/-- Without room for two attributes nothing is sent. -/
theorem buildMcast_short {payload : Nat} (hshort : payload < 2 * nlaTotalSize 4) (a b : UInt32) :
    buildMcast lib payload a b = none := by
  unfold buildMcast
  cases hnew : lib.genlmsgNew payload with
  | none => rfl
  | some skb =>
    have hroom := h.new payload skb hnew
    obtain ⟨skb₁, hput, hroom₁, -⟩ := h.put skb 0xcc (by omega)
    simp only [Option.bind_eq_bind, Option.bind_some, hput]
    by_cases hone : lib.skbTailroom skb₁ < nlaTotalSize 4
    · rw [h.full skb₁ 1 a hone, Option.bind_none]
    · obtain ⟨skb₂, hattr, hroom₂, -⟩ := h.attr skb₁ 1 a (by omega)
      rw [hattr, Option.bind_some, h.full skb₂ 2 b (by omega), Option.bind_none]

/-- With room for two attributes both are sent, unless there is no memory. -/
theorem buildMcast_room {payload : Nat} (hroom : 2 * nlaTotalSize 4 ≤ payload) (a b : UInt32)
    {skb : lib.Skb} (hnew : lib.genlmsgNew payload = some skb) :
    buildMcast lib payload a b = some (attrsBytes [(1, a), (2, b)]) := by
  have hskb := h.new payload skb hnew
  obtain ⟨skb₁, hput, hroom₁, hnone⟩ := h.put skb 0xcc (by omega)
  obtain ⟨skb₂, hfirst, hroom₂, hbytes₂⟩ := h.attr skb₁ 1 a (by omega)
  obtain ⟨skb₃, hsecond, -, hbytes₃⟩ := h.attr skb₂ 2 b (by omega)
  unfold buildMcast
  simp only [hnew, hput, hfirst, hsecond, Option.bind_eq_bind, Option.bind_some, hbytes₃, hbytes₂,
    hnone, attrsBytes, List.flatMap_cons, List.flatMap_nil, List.nil_append, List.append_nil]
  rfl

theorem mcastCallback_attrs (a b : UInt32) :
    Carries lib (attrsBytes [(1, a), (2, b)]) 1 ∧ Carries lib (attrsBytes [(1, a), (2, b)]) 2 ∧
      mcastCallback lib (attrsBytes [(1, a), (2, b)]) = .ok (a, b) := by
  have hmax := h.maxAttr
  obtain ⟨table, hparse, hall⟩ := h.parse [(1, a), (2, b)] (by simp) (by
    intro attr hattr
    simp only [List.mem_cons, List.not_mem_nil, or_false] at hattr
    rcases hattr with rfl | rfl
    · exact ⟨le_refl 1, by omega⟩
    · exact ⟨by omega, hmax⟩)
  obtain ⟨first, hone, hfirst⟩ := hall (1, a) (by simp)
  obtain ⟨second, htwo, hsecond⟩ := hall (2, b) (by simp)
  refine ⟨⟨table, hparse, by simp [hone]⟩, ⟨table, hparse, by simp [htwo]⟩, ?_⟩
  simp only [mcastCallback, hparse, nbdAttrIndex, hone, htwo, readAttr, hfirst, hsecond,
    Option.isNone_some, Bool.false_eq_true, if_false]
  rfl

/-- What the size decides: the counter comes through exactly when the new message was asked to
hold two attributes. -/
theorem roundTrip_iff (payload : Nat) (c : UInt32) (hnew : lib.genlmsgNew payload ≠ none) :
    RoundTrip lib (buildMcast lib payload) c ↔ 2 * nlaTotalSize 4 ≤ payload := by
  constructor
  · rintro ⟨msg, hsent, -⟩
    by_contra hshort
    rw [buildMcast_short h (by omega)] at hsent
    cases hsent
  · intro hroom
    obtain ⟨skb, hskb⟩ := Option.ne_none_iff_exists'.mp hnew
    exact ⟨_, buildMcast_room h hroom c (c + 1) hskb, mcastCallback_attrs h c (c + 1)⟩

/-- However often the trigger runs, the counter goes on and nothing is sent. -/
theorem myMcastTrigger_iterate (s : MyState) (n : Nat) :
    ((myMcastTrigger lib)^[n] s).sent = s.sent ∧
      ((myMcastTrigger lib)^[n] s).systemWqCount = s.systemWqCount + UInt32.ofNat n := by
  induction n generalizing s with
  | zero => simp
  | succ n ih =>
    obtain ⟨hsent, hcount⟩ := ih (myMcastTrigger lib s)
    have hnone : myMcast lib s.systemWqCount (s.systemWqCount + 1) = none :=
      buildMcast_short h (by decide) _ _
    rw [Function.iterate_succ_apply, hsent, hcount]
    refine ⟨by simp [myMcastTrigger, hnone], ?_⟩
    rw [Nat.add_comm n 1, UInt32.ofNat_add, ← UInt32.add_assoc]
    rfl

end

/-- The callback reads an absent attribute exactly when it finds the first one only. -/
theorem mcastCallback_absent_iff (lib : Netlink) (msg : List UInt8) :
    mcastCallback lib msg = .error (.fault .nullDeref) ↔
      Carries lib msg 1 ∧ ¬Carries lib msg 2 := by
  unfold mcastCallback Carries nbdAttrIndex
  cases hparse : lib.nlaParse lib.nbdAttrMax msg with
  | none => simp
  | some table =>
    cases hone : table 1 with
    | none => simp [hone]
    | some first =>
      cases htwo : table 2 with
      | none => simp [hone, htwo, readAttr]
      | some second => simp [hone, htwo, readAttr]

/-- The counter never comes through, and a message with the first attribute only is what makes
the callback read an absent one. -/
theorem mcast_never {lib : Netlink} (h : lib.Documented) :
    (∀ c, ¬RoundTrip lib (myMcast lib) c) ∧
      ∀ msg, mcastCallback lib msg = .error (.fault .nullDeref) ↔
        Carries lib msg 1 ∧ ¬Carries lib msg 2 := by
  refine ⟨fun c => ?_, mcastCallback_absent_iff lib⟩
  rintro ⟨msg, hsent, -⟩
  rw [myMcast, buildMcast_short h (by decide)] at hsent
  cases hsent

/-! ## A library -/

/-- The attributes of a message with their types, by the length in each header. -/
def attrsFrom : Nat → List UInt8 → List (Nat × List UInt8)
  | 0, _ => []
  | n + 1, bytes =>
    let len := leNat (bytes.take 2)
    if 4 ≤ len ∧ len ≤ bytes.length then
      (leNat ((bytes.drop 2).take 2), (bytes.drop 4).take (len - 4)) ::
        attrsFrom n (bytes.drop (nlaAlign len))
    else []

/-- Messages as the room that is left and the attributes so far. -/
def plainNetlink : Netlink where
  Skb := Nat × List UInt8
  skbTailroom skb := skb.1
  genlmsgNew n := some (headersSize + n, [])
  genlmsgPut skb _ := if headersSize ≤ skb.1 then some (skb.1 - headersSize, []) else none
  nlaPutU32 skb type value :=
    if nlaTotalSize 4 ≤ skb.1 then some (skb.1 - nlaTotalSize 4, skb.2 ++ attrBytes type value)
    else none
  genlmsgEnd skb := skb.2
  Attr := List UInt8
  nlaParse maxtype bytes := some fun type =>
    ((attrsFrom bytes.length bytes).reverse.find? fun a => a.1 = type ∧ type ≤ maxtype).map Prod.snd
  nlaGetU32 payload := UInt32.ofNat (leNat (payload.take 4))
  nbdAttrMax := 8

private theorem attrsFrom_attrsBytes (attrs : List (Nat × UInt32)) {n : Nat}
    (hn : attrs.length ≤ n) (htypes : ∀ a ∈ attrs, a.1 < 256 ^ 2) :
    attrsFrom n (attrsBytes attrs) = attrs.map fun a => (a.1, leBytes 4 a.2.toNat) := by
  induction attrs generalizing n with
  | nil =>
    cases n with
    | zero => rfl
    | succ n => rfl
  | cons a attrs ih =>
    cases n with
    | zero => simp at hn
    | succ n =>
      have hrest := ih (n := n) (by simpa using hn) (fun b hb => htypes b (List.mem_cons_of_mem a hb))
      have htype : leNat (leBytes 2 a.1) = a.1 := leNat_leBytes (htypes a List.mem_cons_self)
      have hlen : leNat ((attrsBytes (a :: attrs)).take 2) = 8 := rfl
      have hlong : 8 ≤ (attrsBytes (a :: attrs)).length := by
        simp [attrsBytes, attrBytes, leBytes]
      rw [attrsFrom]
      simp only [hlen, hlong, show 4 ≤ 8 by decide, and_self, if_true, List.map_cons, ← hrest]
      rw [← htype]
      rfl

private theorem plainNetlink_parse {attrs : List (Nat × UInt32)}
    (hnodup : (attrs.map Prod.fst).Nodup) (htypes : ∀ a ∈ attrs, 1 ≤ a.1 ∧ a.1 ≤ 8)
    {a : Nat × UInt32} (ha : a ∈ attrs) :
    ((attrsFrom (attrsBytes attrs).length (attrsBytes attrs)).reverse.find? fun b =>
      b.1 = a.1 ∧ a.1 ≤ 8) = some (a.1, leBytes 4 a.2.toNat) := by
  have hlength : attrs.length ≤ (attrsBytes attrs).length := by
    have height : (attrsBytes attrs).length = attrs.length * 8 := by
      simp [attrsBytes, attrBytes, leBytes, List.map_const']
    omega
  rw [attrsFrom_attrsBytes attrs hlength fun b hb => by have := htypes b hb; omega]
  have hmem : (a.1, leBytes 4 a.2.toNat) ∈
      (attrs.map fun b => (b.1, leBytes 4 b.2.toNat)).reverse := by
    rw [List.mem_reverse]
    exact List.mem_map_of_mem ha
  cases hfind : ((attrs.map fun b => (b.1, leBytes 4 b.2.toNat)).reverse.find? fun b =>
      decide (b.1 = a.1 ∧ a.1 ≤ 8)) with
  | none =>
    have hnone := List.find?_eq_none.mp hfind _ hmem
    have htype := (htypes a ha).2
    simp at hnone
    omega
  | some found =>
    have htype := List.find?_some hfind
    have hfound := List.mem_of_find?_eq_some hfind
    rw [List.mem_reverse, List.mem_map] at hfound
    obtain ⟨b, hb, rfl⟩ := hfound
    have hsame : b.1 = a.1 := (of_decide_eq_true htype).1
    rw [List.inj_on_of_nodup_map hnodup hb ha hsame]

theorem plainNetlink_documented : plainNetlink.Documented where
  new n skb hnew := by
    cases hnew
    rfl
  put skb cmd hroom := ⟨_, if_pos hroom, rfl, rfl⟩
  full skb type value hroom := if_neg (Nat.not_le.mpr hroom)
  attr skb type value hroom := ⟨_, if_pos hroom, rfl, rfl⟩
  parse attrs hnodup htypes := by
    refine ⟨_, rfl, fun a ha => ⟨leBytes 4 a.2.toNat, ?_, ?_⟩⟩
    · exact congrArg (Option.map Prod.snd) (plainNetlink_parse hnodup htypes ha)
    · have hvalue : leNat (leBytes 4 a.2.toNat) = a.2.toNat := leNat_leBytes a.2.toNat_lt
      change UInt32.ofNat (leNat ((leBytes 4 a.2.toNat).take 4)) = a.2
      rw [List.take_of_length_le (le_refl 4), hvalue, UInt32.ofNat_toNat]
  maxAttr := by decide

theorem mcast_never_plain : (∀ c, ¬RoundTrip plainNetlink (myMcast plainNetlink) c) ∧
    ∀ msg, mcastCallback plainNetlink msg = .error (.fault .nullDeref) ↔
      Carries plainNetlink msg 1 ∧ ¬Carries plainNetlink msg 2 :=
  mcast_never plainNetlink_documented

/-- The counter 7 is not sent, and the first attribute alone is too little for the callback. -/
theorem seven_not_received : myMcast plainNetlink 7 (7 + 1) = none ∧
    ¬RoundTrip plainNetlink (myMcast plainNetlink) 7 ∧
    mcastCallback plainNetlink (attrsBytes [(1, 7)]) = .error (.fault .nullDeref) := by
  have hnone : myMcast plainNetlink 7 (7 + 1) = none := rfl
  refine ⟨hnone, ?_, by decide⟩
  rintro ⟨msg, hsent, -⟩
  rw [hnone] at hsent
  cases hsent

end PerfTools.Net
