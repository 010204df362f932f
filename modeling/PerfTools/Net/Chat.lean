import PerfTools.Lib.Machine
import PerfTools.Lib.Printf

/-!
# The chat of net/socket

Client and server type and read in turns; every message is a buffer of 80 bytes. A byte stream
connects them in each direction, and a read returns any non-empty part of what is in flight. Both
loops take one read for one message. The actions of the two parties and of the network may come in
any order; an action that cannot happen has no result.
-/

namespace PerfTools.Net

open Memory Printf

/-- MAX -/
def chatMax : Nat := 80

/-- The buffer after bzero. -/
def zeroBuff : List UInt8 := List.replicate chatMax 0

/-- while ((buff[n++] = getchar()) != '\n'), on the characters that are typed; without a newline
the loop runs out of the buffer. -/
def typeLine : Nat → List UInt8 → Text → Except Fault (List UInt8)
  | _, _, [] => .error .outOfBounds
  | n, buff, c :: cs =>
    if chatMax ≤ n then .error .outOfBounds
    else if c = newline then .ok (buff.set n c)
    else typeLine (n + 1) (buff.set n c) cs

/-- The buffer after bzero and a read of k bytes. -/
def received (k : Nat) (stream : List UInt8) : List UInt8 :=
  stream.take k ++ List.replicate (chatMax - (stream.take k).length) 0

/-- strncmp("exit", buff, 4) == 0 -/
def isExit (buff : List UInt8) : Bool := buff.take 4 = ascii "exit"

def fromClient (message : Text) : Text :=
  ascii "From client: " ++ message ++ ascii "\t To client : "

def fromServer (message : Text) : Text := ascii "From Server : " ++ message

/-- Where a party is in its loop. -/
inductive Pc
  | typing
  | reading
  | left
  | stopped (f : Fault)
  deriving DecidableEq, Repr

/-- The lines still to be typed, the bytes in flight, what has been displayed, and the rounds that
are over, for both parties. -/
structure Chat where
  clientLines : List Text
  serverLines : List Text
  toServer : List UInt8
  toClient : List UInt8
  clientShown : List Text
  serverShown : List Text
  clientPc : Pc
  serverPc : Pc
  clientRounds : Nat
  serverRounds : Nat
  deriving DecidableEq, Repr

inductive Action
  | clientTypes
  | serverReads (k : Nat)
  | serverTypes
  | clientReads (k : Nat)

/-- What a read may return: bytes in flight, or nothing when the other party has left. -/
def MayRead (k : Nat) (stream : List UInt8) (peer : Pc) : Prop :=
  (0 < k ∧ k ≤ chatMax ∧ k ≤ stream.length) ∨ (k = 0 ∧ stream = [] ∧ peer = .left)

instance (k : Nat) (stream : List UInt8) (peer : Pc) : Decidable (MayRead k stream peer) :=
  inferInstanceAs (Decidable (_ ∨ _))

namespace Chat

/-- The client up to its write. -/
def clientTypes (s : Chat) : Option Chat :=
  match s.clientPc, s.clientLines with
  | .typing, line :: lines =>
    match typeLine 0 zeroBuff line with
    | .ok buff =>
      some { s with clientLines := lines, toServer := s.toServer ++ buff, clientPc := .reading }
    | .error f => some { s with clientPc := .stopped f }
  | _, _ => none

/-- The server up to its printf. -/
def serverReads (k : Nat) (s : Chat) : Option Chat :=
  if s.serverPc = .reading ∧ MayRead k s.toServer s.clientPc then
    match readString (received k s.toServer) 0 with
    | .ok message =>
      some { s with
        toServer := s.toServer.drop k
        serverShown := s.serverShown ++ [fromClient message.chars]
        serverPc := .typing }
    | .error f => some { s with serverPc := .stopped f }
  else none

/-- The rest of the server's round. -/
def serverTypes (s : Chat) : Option Chat :=
  match s.serverPc, s.serverLines with
  | .typing, line :: lines =>
    match typeLine 0 zeroBuff line with
    | .ok buff =>
      some { s with
        serverLines := lines
        toClient := s.toClient ++ buff
        serverRounds := s.serverRounds + 1
        serverPc := if isExit buff then .left else .reading }
    | .error f => some { s with serverPc := .stopped f }
  | _, _ => none

/-- The rest of the client's round. -/
def clientReads (k : Nat) (s : Chat) : Option Chat :=
  if s.clientPc = .reading ∧ MayRead k s.toClient s.serverPc then
    match readString (received k s.toClient) 0 with
    | .ok message =>
      some { s with
        toClient := s.toClient.drop k
        clientShown := s.clientShown ++ [fromServer message.chars]
        clientRounds := s.clientRounds + 1
        clientPc := if isExit (received k s.toClient) then .left else .typing }
    | .error f => some { s with clientPc := .stopped f }
  else none

def act : Action → Chat → Option Chat
  | .clientTypes => clientTypes
  | .serverReads k => serverReads k
  | .serverTypes => serverTypes
  | .clientReads k => clientReads k

end Chat

/-- The chat with the lines that will be typed, when every action meets the condition. -/
def chatSystem (fine : Chat → Action → Prop) (clientLines serverLines : List Text) :
    System Chat where
  start s := s = ⟨clientLines, serverLines, [], [], [], [], .typing, .reading, 0, 0⟩
  step s t := ∃ a, fine s a ∧ s.act a = some t

/-- A party has left exactly when a line of the server in its rounds begins with exit, and then
that is the line of its last round. -/
def LeavesInTime (serverLines : List Text) (pc : Pc) (rounds : Nat) : Prop :=
  (pc = .left ↔ ∃ l ∈ serverLines.take rounds, isExit l = true) ∧
    ∀ l ∈ serverLines.take (rounds - 1), isExit l = false

/-- Both parties have left, or one of them waits for its user. -/
def Chat.AtRest (s : Chat) : Prop :=
  (s.clientPc = .left ∧ s.serverPc = .left) ∨ (s.clientPc = .typing ∧ s.clientLines = []) ∨
    (s.serverPc = .typing ∧ s.serverLines = [])

/-- No buffer is overrun, messages are displayed as they were typed and in order, one in each
round, and both loops end in the round of the first line of the server that begins with exit.
Until then the chat only rests for a user. -/
structure ChatLaw (clientLines serverLines : List Text) (s : Chat) : Prop where
  running : ∀ f, s.clientPc ≠ .stopped f ∧ s.serverPc ≠ .stopped f
  serverShown : s.serverShown = (clientLines.take s.serverShown.length).map fromClient
  clientShown : s.clientShown = (serverLines.take s.clientShown.length).map fromServer
  serverCount : s.serverShown.length = s.serverRounds + if s.serverPc = .typing then 1 else 0
  clientCount : s.clientShown.length = s.clientRounds
  client : LeavesInTime serverLines s.clientPc s.clientRounds
  server : LeavesInTime serverLines s.serverPc s.serverRounds
  progress : (∀ a, s.act a = none) → s.AtRest

/-- Characters ended by a newline. -/
def IsLine (l : Text) : Prop := ∃ body, newline ∉ body ∧ l = body ++ [newline]

/-- A line that the buffer holds together with a terminator. -/
def FineLine (l : Text) : Prop := l.length < chatMax ∧ 0 ∉ l

/-- Actions with which a read is a message: the lines are fine, and a read returns the whole
buffer; in the last round it is enough that it returns the message. -/
def FineAction (s : Chat) : Action → Prop
  | .clientTypes => ∀ l ∈ s.clientLines.head?, FineLine l
  | .serverTypes => ∀ l ∈ s.serverLines.head?, FineLine l
  | .serverReads k => k = chatMax ∨
      (∃ l ∈ s.serverLines.head?, isExit l = true) ∧ (cstringOf s.toServer).chars.length ≤ k
  | .clientReads k => k = chatMax ∨
      isExit s.toClient = true ∧ (cstringOf s.toClient).chars.length ≤ k

/-! ## Messages -/

/-- The buffer that is sent for a line. -/
def sent (l : Text) : List UInt8 := l ++ List.replicate (chatMax - l.length) 0

private theorem set_sent {done : Text} (hlen : done.length < chatMax) (c : UInt8) :
    (sent done).set done.length c = sent (done ++ [c]) := by
  have hroom : chatMax - done.length = (chatMax - (done.length + 1)) + 1 := by omega
  rw [sent, List.set_append_right _ _ (le_refl _), Nat.sub_self, hroom, List.replicate_succ,
    List.set_cons_zero, sent, List.length_append, List.length_singleton, List.append_assoc]
  rfl

private theorem typeLine_from {body done : Text} (hbody : newline ∉ body)
    (hlen : done.length + body.length < chatMax) :
    typeLine done.length (sent done) (body ++ [newline]) =
      .ok (sent (done ++ (body ++ [newline]))) := by
  induction body generalizing done with
  | nil =>
    simp only [List.length_nil, Nat.add_zero] at hlen
    rw [List.nil_append, typeLine, if_neg (by omega), if_pos rfl, set_sent hlen]
  | cons c body ih =>
    simp only [List.mem_cons, not_or] at hbody
    simp only [List.length_cons] at hlen
    have hnext := @ih (done ++ [c]) hbody.2
      (by simp only [List.length_append, List.length_singleton]; omega)
    rw [List.length_append, List.length_singleton, List.append_assoc] at hnext
    rw [List.cons_append, typeLine, if_neg (by omega), if_neg (fun h => hbody.1 h.symm),
      set_sent (by omega)]
    simpa [sent] using hnext

theorem typeLine_eq {l : Text} (h : IsLine l) (hlen : l.length ≤ chatMax) :
    typeLine 0 zeroBuff l = .ok (sent l) := by
  obtain ⟨body, hbody, rfl⟩ := h
  simp only [List.length_append, List.length_singleton] at hlen
  apply @typeLine_from body [] hbody
  simp only [List.length_nil]
  omega

private theorem typeLine_from_overrun {body : Text} {n : Nat} {buff : List UInt8}
    (hbody : newline ∉ body) (hlen : chatMax < n + body.length + 1) :
    typeLine n buff (body ++ [newline]) = .error .outOfBounds := by
  induction body generalizing n buff with
  | nil =>
    simp only [List.length_nil] at hlen
    rw [List.nil_append, typeLine, if_pos (by omega)]
  | cons c body ih =>
    simp only [List.mem_cons, not_or] at hbody
    simp only [List.length_cons] at hlen
    rw [List.cons_append, typeLine]
    by_cases hn : chatMax ≤ n
    · rw [if_pos hn]
    · rw [if_neg hn, if_neg (fun h => hbody.1 h.symm)]
      exact ih hbody.2 (by omega)

/-- The loop writes a longer line beyond the buffer. -/
theorem typeLine_overrun {l : Text} (h : IsLine l) (hlen : chatMax < l.length) :
    typeLine 0 zeroBuff l = .error .outOfBounds := by
  obtain ⟨body, hbody, rfl⟩ := h
  simp only [List.length_append, List.length_singleton] at hlen
  exact typeLine_from_overrun hbody (by omega)

theorem sent_length {l : Text} (h : l.length ≤ chatMax) : (sent l).length = chatMax := by
  simp only [sent, List.length_append, List.length_replicate]
  omega

theorem received_sent {l : Text} {k : Nat} (hlen : l.length ≤ k) (hk : k ≤ chatMax) :
    received k (sent l) = sent l := by
  have htake : (sent l).take k = l ++ List.replicate (k - l.length) 0 := by
    rw [sent, List.take_append, List.take_of_length_le hlen, List.take_replicate]
    congr 2
    omega
  rw [received, htake, List.append_assoc, List.replicate_append_replicate, sent]
  congr 2
  simp only [List.length_append, List.length_replicate]
  omega

private theorem sent_eq {l : Text} (h : l.length < chatMax) :
    sent l = l ++ 0 :: List.replicate (chatMax - l.length - 1) 0 := by
  rw [sent, ← List.replicate_succ]
  congr 2
  omega

theorem readString_sent {l : Text} (h : FineLine l) : readString (sent l) 0 = .ok ⟨l, h.2⟩ :=
  readString_of_drop (sent_eq h.1)

theorem cstringOf_sent {l : Text} (h : FineLine l) : cstringOf (sent l) = ⟨l, h.2⟩ := by
  rw [sent_eq h.1]
  exact cstringOf_append ⟨l, h.2⟩ _

theorem isExit_sent {l : Text} (h : l.length < chatMax) : isExit (sent l) = isExit l := by
  unfold isExit
  apply decide_eq_decide.mpr
  by_cases hlen : 4 ≤ l.length
  · rw [sent, List.take_append_of_le_length hlen]
  · have hnul : (0 : UInt8) ∉ ascii "exit" := by decide
    constructor
    · intro htake
      have hmem : (0 : UInt8) ∈ (sent l).take 4 := by
        rw [sent_eq h, List.take_append]
        apply List.mem_append_right
        rw [List.take_cons (by omega)]
        exact List.mem_cons_self
      exact absurd (htake ▸ hmem) hnul
    · intro htake
      have hshort := congrArg List.length htake
      have hfour : (ascii "exit").length = 4 := rfl
      rw [List.length_take] at hshort
      omega

/-! ## Runs -/

section

variable (clientLines serverLines : List Text)

/-- The lines of the rounds that are over, and those that are still to be typed. -/
structure Rounds (cs ss cl sl : List Text) : Prop where
  client : clientLines = cs ++ cl
  server : serverLines = ss ++ sl
  length : cs.length = ss.length
  notExit : ∀ l ∈ ss, isExit l = false

/-- The states that fine actions reach, by where the two parties are in a round. -/
inductive Phase : Chat → Prop
  | talk {cs ss cl sl : List Text} (h : Rounds clientLines serverLines cs ss cl sl) :
    Phase ⟨cl, sl, [], [], ss.map fromServer, cs.map fromClient, .typing, .reading,
      ss.length, ss.length⟩
  | asked {cs ss cl sl : List Text} {l : Text}
      (h : Rounds clientLines serverLines cs ss (l :: cl) sl) (hl : FineLine l) :
    Phase ⟨cl, sl, sent l, [], ss.map fromServer, cs.map fromClient, .reading, .reading,
      ss.length, ss.length⟩
  | heard {cs ss cl sl : List Text} {l : Text} {rest : List UInt8}
      (h : Rounds clientLines serverLines cs ss (l :: cl) sl)
      (hrest : rest = [] ∨ ∃ m ∈ sl.head?, isExit m = true) :
    Phase ⟨cl, sl, rest, [], ss.map fromServer, (cs ++ [l]).map fromClient, .reading, .typing,
      ss.length, ss.length⟩
  | answered {cs ss cl sl : List Text} {l m : Text} {rest : List UInt8}
      (h : Rounds clientLines serverLines cs ss (l :: cl) (m :: sl)) (hm : FineLine m)
      (hrest : rest = [] ∨ isExit m = true) :
    Phase ⟨cl, sl, rest, sent m, ss.map fromServer, (cs ++ [l]).map fromClient, .reading,
      if isExit m then .left else .reading, ss.length, ss.length + 1⟩
  | parted {cs ss cl sl : List Text} {l m : Text} {rest rest' : List UInt8}
      (h : Rounds clientLines serverLines cs ss (l :: cl) (m :: sl)) (hm : isExit m = true) :
    Phase ⟨cl, sl, rest, rest', (ss ++ [m]).map fromServer, (cs ++ [l]).map fromClient, .left,
      .left, ss.length + 1, ss.length + 1⟩

end

section

variable {clientLines serverLines : List Text} {s t : Chat}

private theorem clientTypes_phase (hcl : ∀ l ∈ clientLines, IsLine l)
    (hs : Phase clientLines serverLines s) (hfine : FineAction s .clientTypes)
    (hact : s.clientTypes = some t) : Phase clientLines serverLines t := by
  cases hs with
  | @talk cs ss cl sl h =>
    cases cl with
    | nil => cases hact
    | cons l cl =>
      have hl : FineLine l := hfine l rfl
      have hline : IsLine l := hcl l (by simp [h.client])
      simp only [Chat.clientTypes, typeLine_eq hline (le_of_lt hl.1), List.nil_append,
        Option.some.injEq] at hact
      subst hact
      exact .asked h hl
  | _ => cases hact

private theorem not_mayRead_nil {k : Nat} {peer : Pc} (hpeer : peer ≠ .left) :
    ¬ MayRead k [] peer := by
  rintro (⟨hpos, -, hle⟩ | ⟨-, -, hleft⟩)
  · exact absurd hle (by simpa using Nat.pos_iff_ne_zero.mp hpos)
  · exact hpeer hleft

private theorem MayRead.le {k : Nat} {stream : List UInt8} {peer : Pc}
    (h : MayRead k stream peer) : k ≤ chatMax := by
  rcases h with ⟨-, hk, -⟩ | ⟨rfl, -⟩
  · exact hk
  · exact Nat.zero_le _

private theorem serverReads_phase {k : Nat} (hs : Phase clientLines serverLines s)
    (hfine : FineAction s (.serverReads k)) (hact : s.serverReads k = some t) :
    Phase clientLines serverLines t := by
  have hmay : s.serverPc = .reading ∧ MayRead k s.toServer s.clientPc := by
    by_contra hno
    rw [Chat.serverReads, if_neg hno] at hact
    cases hact
  rw [Chat.serverReads, if_pos hmay] at hact
  obtain ⟨hpc, hmay⟩ := hmay
  cases hs with
  | talk h => exact absurd hmay (not_mayRead_nil Pc.noConfusion)
  | @asked cs ss cl sl l h hl =>
    have hcovers : l.length ≤ k ∧ ((sent l).drop k = [] ∨ ∃ m ∈ sl.head?, isExit m = true) := by
      rcases hfine with rfl | ⟨hexit, hle⟩
      · have hlen := sent_length (le_of_lt hl.1)
        exact ⟨le_of_lt hl.1, Or.inl (List.drop_of_length_le (le_of_eq hlen))⟩
      · rw [cstringOf_sent hl] at hle
        exact ⟨hle, Or.inr hexit⟩
    simp only [received_sent hcovers.1 hmay.le, readString_sent hl, Option.some.injEq] at hact
    subst hact
    have hheard := Phase.heard h hcovers.2
    rwa [List.map_append] at hheard
  | heard h hrest => cases hpc
  | answered h hm hrest =>
    rcases hrest with rfl | hexit
    · exact absurd hmay (not_mayRead_nil Pc.noConfusion)
    · rw [if_pos hexit] at hpc
      cases hpc
  | parted h hm => cases hpc

private theorem serverTypes_phase (hsl : ∀ l ∈ serverLines, IsLine l)
    (hs : Phase clientLines serverLines s) (hfine : FineAction s .serverTypes)
    (hact : s.serverTypes = some t) : Phase clientLines serverLines t := by
  cases hs with
  | @heard cs ss cl sl l rest h hrest =>
    cases sl with
    | nil => cases hact
    | cons m sl =>
      have hm : FineLine m := hfine m rfl
      have hline : IsLine m := hsl m (by simp [h.server])
      simp only [Chat.serverTypes, typeLine_eq hline (le_of_lt hm.1), List.nil_append,
        isExit_sent hm.1, Option.some.injEq] at hact
      subst hact
      exact .answered h hm (by simpa using hrest)
  | @answered cs ss cl sl l m rest h hm hrest =>
    simp only [Chat.serverTypes] at hact
    cases hexit : isExit m <;> rw [hexit] at hact <;> cases hact
  | _ => cases hact

private theorem Rounds.next {cs ss cl sl : List Text} {l m : Text}
    (h : Rounds clientLines serverLines cs ss (l :: cl) (m :: sl)) (hm : isExit m = false) :
    Rounds clientLines serverLines (cs ++ [l]) (ss ++ [m]) cl sl where
  client := by rw [h.client, List.append_assoc, List.singleton_append]
  server := by rw [h.server, List.append_assoc, List.singleton_append]
  length := by simp only [List.length_append, List.length_singleton, h.length]
  notExit := by
    intro a ha
    rcases List.mem_append.mp ha with ha | ha
    · exact h.notExit a ha
    · rwa [List.mem_singleton.mp ha]

private theorem clientReads_phase {k : Nat} (hs : Phase clientLines serverLines s)
    (hfine : FineAction s (.clientReads k)) (hact : s.clientReads k = some t) :
    Phase clientLines serverLines t := by
  have hmay : s.clientPc = .reading ∧ MayRead k s.toClient s.serverPc := by
    by_contra hno
    rw [Chat.clientReads, if_neg hno] at hact
    cases hact
  rw [Chat.clientReads, if_pos hmay] at hact
  obtain ⟨hpc, hmay⟩ := hmay
  cases hs with
  | talk h => cases hpc
  | asked h hl => exact absurd hmay (not_mayRead_nil Pc.noConfusion)
  | heard h hrest => exact absurd hmay (not_mayRead_nil Pc.noConfusion)
  | @answered cs ss cl sl l m rest h hm hrest =>
    have hcovers : m.length ≤ k ∧ ((sent m).drop k = [] ∨ isExit m = true) := by
      rcases hfine with rfl | ⟨hexit, hle⟩
      · have hlen := sent_length (le_of_lt hm.1)
        exact ⟨le_of_lt hm.1, Or.inl (List.drop_of_length_le (le_of_eq hlen))⟩
      · rw [cstringOf_sent hm] at hle
        exact ⟨hle, Or.inr (isExit_sent hm.1 ▸ hexit)⟩
    simp only [received_sent hcovers.1 hmay.le, readString_sent hm, isExit_sent hm.1,
      Option.some.injEq] at hact
    subst hact
    have hmap : ss.map fromServer ++ [fromServer m] = (ss ++ [m]).map fromServer := by
      rw [List.map_append, List.map_singleton]
    rw [hmap]
    cases hexit : isExit m with
    | true => exact .parted h hexit
    | false =>
      rw [hexit] at hrest hcovers
      have hnone : rest = [] := by simpa using hrest
      have hdrop : (sent m).drop k = [] := by simpa using hcovers.2
      have htalk := Phase.talk (h.next hexit)
      rw [hnone, hdrop]
      simpa using htalk
  | parted h hm => cases hpc

private theorem act_phase {a : Action} (hcl : ∀ l ∈ clientLines, IsLine l)
    (hsl : ∀ l ∈ serverLines, IsLine l) (hs : Phase clientLines serverLines s)
    (hfine : FineAction s a) (hact : s.act a = some t) : Phase clientLines serverLines t := by
  cases a with
  | clientTypes => exact clientTypes_phase hcl hs hfine hact
  | serverReads k => exact serverReads_phase hs hfine hact
  | serverTypes => exact serverTypes_phase hsl hs hfine hact
  | clientReads k => exact clientReads_phase hs hfine hact

private theorem leavesInTime_before {ss sl : List Text} {pc : Pc} (hsplit : serverLines = ss ++ sl)
    (hnot : ∀ l ∈ ss, isExit l = false) (hpc : pc ≠ .left) :
    LeavesInTime serverLines pc ss.length := by
  constructor
  · rw [hsplit, List.take_left']
    · constructor
      · intro hleft
        exact absurd hleft hpc
      · rintro ⟨l, hl, hexit⟩
        rw [hnot l hl] at hexit
        cases hexit
    · rfl
  · intro l hl
    rw [hsplit, List.take_append_of_le_length (by omega)] at hl
    exact hnot l (List.mem_of_mem_take hl)

private theorem leavesInTime_last {ss sl : List Text} {m : Text}
    (hsplit : serverLines = ss ++ m :: sl) (hnot : ∀ l ∈ ss, isExit l = false)
    (hm : isExit m = true) : LeavesInTime serverLines .left (ss.length + 1) := by
  constructor
  · have htake : serverLines.take (ss.length + 1) = ss ++ [m] := by
      rw [hsplit, List.take_append, List.take_of_length_le (by omega)]
      simp
    rw [htake]
    exact ⟨fun _ => ⟨m, by simp, hm⟩, fun _ => rfl⟩
  · intro l hl
    rw [Nat.add_sub_cancel, hsplit, List.take_left' rfl] at hl
    exact hnot l hl

private theorem shown_prefix {lines shown rest : List Text} (show' : Text → Text)
    (h : lines = shown ++ rest) :
    shown.map show' = (lines.take (shown.map show').length).map show' := by
  rw [List.length_map, h, List.take_left' rfl]

private theorem lines_of_clientTypes (hpc : s.clientPc = .typing) (h : s.clientTypes = none) :
    s.clientLines = [] := by
  rw [Chat.clientTypes, hpc] at h
  cases hlines : s.clientLines with
  | nil => rfl
  | cons l lines =>
    rw [hlines] at h
    simp only at h
    cases htyped : typeLine 0 zeroBuff l <;> rw [htyped] at h <;> cases h

private theorem lines_of_serverTypes (hpc : s.serverPc = .typing) (h : s.serverTypes = none) :
    s.serverLines = [] := by
  rw [Chat.serverTypes, hpc] at h
  cases hlines : s.serverLines with
  | nil => rfl
  | cons l lines =>
    rw [hlines] at h
    simp only at h
    cases htyped : typeLine 0 zeroBuff l <;> rw [htyped] at h <;> cases h

private theorem serverReads_ne_none {k : Nat} (hpc : s.serverPc = .reading)
    (hmay : MayRead k s.toServer s.clientPc) : s.serverReads k ≠ none := by
  rw [Chat.serverReads, if_pos ⟨hpc, hmay⟩]
  cases readString (received k s.toServer) 0 <;> simp

private theorem clientReads_ne_none {k : Nat} (hpc : s.clientPc = .reading)
    (hmay : MayRead k s.toClient s.serverPc) : s.clientReads k ≠ none := by
  rw [Chat.clientReads, if_pos ⟨hpc, hmay⟩]
  cases readString (received k s.toClient) 0 <;> simp

private theorem mayRead_sent {l : Text} {peer : Pc} (h : FineLine l) :
    MayRead chatMax (sent l) peer :=
  Or.inl ⟨by decide, le_refl _, (sent_length (le_of_lt h.1)).ge⟩

private theorem Phase.progress (hs : Phase clientLines serverLines s) (h : ∀ a, s.act a = none) :
    s.AtRest := by
  cases hs with
  | talk _ => exact Or.inr (Or.inl ⟨rfl, lines_of_clientTypes rfl (h .clientTypes)⟩)
  | asked _ hl => exact absurd (h (.serverReads chatMax)) (serverReads_ne_none rfl (mayRead_sent hl))
  | heard _ _ => exact Or.inr (Or.inr ⟨rfl, lines_of_serverTypes rfl (h .serverTypes)⟩)
  | answered _ hm _ =>
    exact absurd (h (.clientReads chatMax)) (clientReads_ne_none rfl (mayRead_sent hm))
  | parted _ _ => exact Or.inl ⟨rfl, rfl⟩

/-- Before the last round is over both parties have had the same rounds. -/
private theorem law_before {cs ss cl cl' sl : List Text} {rest rest' : List UInt8} {pc pc' : Pc}
    (hs : Phase clientLines serverLines ⟨cl', sl, rest, rest', ss.map fromServer,
      cs.map fromClient, pc, pc', ss.length, ss.length⟩)
    (hclient : clientLines = cs ++ cl) (hserver : serverLines = ss ++ sl)
    (hnot : ∀ l ∈ ss, isExit l = false) (hpc : pc = .typing ∨ pc = .reading)
    (hpc' : pc' = .typing ∨ pc' = .reading)
    (hcount : cs.length = ss.length + if pc' = .typing then 1 else 0) :
    ChatLaw clientLines serverLines ⟨cl', sl, rest, rest', ss.map fromServer, cs.map fromClient, pc,
      pc', ss.length, ss.length⟩ := by
  have hgoes {pc : Pc} (hpc : pc = .typing ∨ pc = .reading) : pc ≠ .left ∧ ∀ f, pc ≠ .stopped f := by
    rcases hpc with rfl | rfl <;> exact ⟨Pc.noConfusion, fun f => Pc.noConfusion⟩
  exact {
    running := fun f => ⟨(hgoes hpc).2 f, (hgoes hpc').2 f⟩
    serverShown := shown_prefix _ hclient
    clientShown := shown_prefix _ hserver
    serverCount := by rw [List.length_map, hcount]
    clientCount := List.length_map _
    client := leavesInTime_before hserver hnot (hgoes hpc).1
    server := leavesInTime_before hserver hnot (hgoes hpc').1
    progress := hs.progress }

private theorem Phase.law (hs : Phase clientLines serverLines s) :
    ChatLaw clientLines serverLines s := by
  cases hs with
  | talk h =>
    exact law_before (.talk h) h.client h.server h.notExit (Or.inl rfl) (Or.inr rfl) h.length
  | asked h hl =>
    exact law_before (.asked h hl) h.client h.server h.notExit (Or.inr rfl) (Or.inr rfl) h.length
  | @heard cs ss cl sl l rest h hrest =>
    have hclient : clientLines = (cs ++ [l]) ++ cl := by simp [h.client]
    exact law_before (.heard h hrest) hclient h.server h.notExit (Or.inr rfl) (Or.inl rfl)
      (by simp [h.length])
  | @answered cs ss cl sl l m rest h hm hrest =>
    have hclient : clientLines = (cs ++ [l]) ++ cl := by simp [h.client]
    have hserver : LeavesInTime serverLines (if isExit m then .left else .reading)
        (ss.length + 1) := by
      cases hexit : isExit m with
      | true => exact leavesInTime_last h.server h.notExit hexit
      | false =>
        have hnext := h.next hexit
        have hlaw : LeavesInTime serverLines .reading (ss ++ [m]).length :=
          leavesInTime_before hnext.server hnext.notExit Pc.noConfusion
        rwa [List.length_append, List.length_singleton] at hlaw
    exact {
      running := fun f => ⟨Pc.noConfusion, by cases isExit m <;> exact Pc.noConfusion⟩
      serverShown := shown_prefix _ hclient
      clientShown := shown_prefix _ h.server
      serverCount := by cases isExit m <;> simp [h.length]
      clientCount := by simp
      client := leavesInTime_before h.server h.notExit Pc.noConfusion
      server := hserver
      progress := (Phase.answered h hm hrest).progress }
  | @parted cs ss cl sl l m rest rest' h hm =>
    have hclient : clientLines = (cs ++ [l]) ++ cl := by simp [h.client]
    have hserver : serverLines = (ss ++ [m]) ++ sl := by simp [h.server]
    exact {
      running := fun f => ⟨Pc.noConfusion, Pc.noConfusion⟩
      serverShown := shown_prefix _ hclient
      clientShown := shown_prefix _ hserver
      serverCount := by simp [h.length]
      clientCount := by simp
      client := leavesInTime_last h.server h.notExit hm
      server := leavesInTime_last h.server h.notExit hm
      progress := (Phase.parted h hm).progress }

end

/-- In every run in which the typed lines are shorter than the buffer and without a null, and every
read returns a whole message, the chat keeps its law. -/
theorem chat_law {clientLines serverLines : List Text} (hcl : ∀ l ∈ clientLines, IsLine l)
    (hsl : ∀ l ∈ serverLines, IsLine l) {s : Chat}
    (hs : (chatSystem FineAction clientLines serverLines).Reached s) :
    ChatLaw clientLines serverLines s := by
  apply Phase.law
  apply System.Reached.invariant (I := Phase clientLines serverLines) _ _ hs
  · intro s hstart
    rw [hstart]
    have hrounds : Rounds clientLines serverLines [] [] clientLines serverLines :=
      ⟨rfl, rfl, rfl, by simp⟩
    exact .talk hrounds
  · intro s t hs hstep
    obtain ⟨a, hfine, hact⟩ := hstep
    exact act_phase hcl hsl hs hfine hact

/-- One round in which the server answers with exit; the client's last read is short. -/
def afterOneRound : Chat :=
  ⟨[], [], [], List.replicate 75 0, [ascii "From Server : exit\n"],
    [ascii "From client: hello\n\t To client : "], .left, .left, 1, 1⟩

theorem chat_law_oneRound :
    (chatSystem FineAction [ascii "hello\n"] [ascii "exit\n"]).Reached afterOneRound ∧
      ChatLaw [ascii "hello\n"] [ascii "exit\n"] afterOneRound := by
  have hhello : FineLine (ascii "hello\n") := ⟨by decide +kernel, by decide +kernel⟩
  have hexit : FineLine (ascii "exit\n") := ⟨by decide +kernel, by decide +kernel⟩
  have hstart := System.Reached.start
    (S := chatSystem FineAction [ascii "hello\n"] [ascii "exit\n"]) rfl
  have hasked := hstart.step
    (t := ⟨[], [ascii "exit\n"], sent (ascii "hello\n"), [], [], [], .reading, .reading, 0, 0⟩)
    ⟨.clientTypes, by simpa [FineAction] using hhello, by decide +kernel⟩
  have hheard := hasked.step
    (t := ⟨[], [ascii "exit\n"], [], [], [], [ascii "From client: hello\n\t To client : "],
      .reading, .typing, 0, 0⟩)
    ⟨.serverReads 80, Or.inl rfl, by decide +kernel⟩
  have hanswered := hheard.step
    (t := ⟨[], [], [], sent (ascii "exit\n"), [],
      [ascii "From client: hello\n\t To client : "], .reading, .left, 0, 1⟩)
    ⟨.serverTypes, by simpa [FineAction] using hexit, by decide +kernel⟩
  have hparted := hanswered.step
    (t := afterOneRound)
    ⟨.clientReads 5, Or.inr ⟨by decide +kernel, by decide +kernel⟩, by decide +kernel⟩
  exact ⟨hparted, chat_law
    (fun l hl => ⟨ascii "hello", by decide, List.mem_singleton.mp hl⟩)
    (fun l hl => ⟨ascii "exit", by decide, List.mem_singleton.mp hl⟩) hparted⟩

/-- A line of 81 characters is written beyond the buffer. -/
theorem longLine_overruns : ¬ ∀ clientLines serverLines : List Text,
    (∀ l ∈ clientLines, IsLine l) → (∀ l ∈ serverLines, IsLine l) →
    ∀ s, (chatSystem (fun _ _ => True) clientLines serverLines).Reached s →
      ChatLaw clientLines serverLines s := by
  intro hall
  let long : Text := List.replicate 80 97 ++ [newline]
  have hline : IsLine long := ⟨List.replicate 80 97, by decide +kernel, rfl⟩
  have hlen : chatMax < long.length := by
    simp only [long, chatMax, List.length_append, List.length_replicate, List.length_singleton]
    omega
  let start : Chat := ⟨[long], [], [], [], [], [], .typing, .reading, 0, 0⟩
  have hact : start.clientTypes = some { start with clientPc := .stopped .outOfBounds } := by
    simp only [start, Chat.clientTypes, typeLine_overrun hline hlen]
  have hlines : ∀ l ∈ [long], IsLine l := by
    intro l hl
    rw [List.mem_singleton.mp hl]
    exact hline
  have hstart := System.Reached.start (S := chatSystem (fun _ _ => True) [long] []) (s := start) rfl
  have hstopped := hstart.step ⟨.clientTypes, trivial, hact⟩
  have hlaw := hall [long] [] hlines (by simp) _ hstopped
  exact (hlaw.running .outOfBounds).1 rfl

end PerfTools.Net
