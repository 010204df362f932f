import PerfTools.Lib.Memory

/-!
# Programs that run and stop

A program changes a state and returns a value, unless it stops early: at an exit, with its
code, or at a fault. In both cases the state it had reached is kept, so that what a program had
written before it stopped can be spoken about.

`wp` is the weakest precondition with one postcondition for the return and one for a stop. With
a stop that is never allowed it speaks about runs that return; with the same condition on both
sides it speaks about invariants.
-/

namespace PerfTools

open Memory

inductive Stop
  | exit (code : Int)
  | fault (f : Fault)
  deriving DecidableEq, Repr

def Exec (σ α : Type) : Type := σ → Except Stop α × σ

variable {σ α β : Type}

namespace Exec

instance : Monad (Exec σ) where
  pure a := fun s => (.ok a, s)
  bind m f := fun s =>
    match m s with
    | (.ok a, s) => f a s
    | (.error e, s) => (.error e, s)

def get : Exec σ σ := fun s => (.ok s, s)

def modify (f : σ → σ) : Exec σ Unit := fun s => (.ok (), f s)

def stop (e : Stop) : Exec σ α := fun s => (.error e, s)

/-- A computation that cannot change the state. -/
def lift (x : Except Fault α) : Exec σ α := fun s =>
  match x with
  | .ok a => (.ok a, s)
  | .error f => (.error (.fault f), s)

/-- An if without an else. -/
def runIf (c : Prop) [Decidable c] (m : Exec σ Unit) : Exec σ Unit := if c then m else pure ()

/-- The loop for (i = first; remaining rounds; i++). -/
def loop (body : Nat → Exec σ Unit) : Nat → Nat → Exec σ Unit
  | 0, _ => pure ()
  | n + 1, i => do
    body i
    loop body n (i + 1)

/-- The same loop with a variable that every round sets anew. -/
def fold (body : Nat → α → Exec σ α) : Nat → Nat → α → Exec σ α
  | 0, _, a => pure a
  | n + 1, i, a => do
    let a ← body i a
    fold body n (i + 1) a

/-- The weakest precondition: Q after a return, E after a stop. -/
def wp (m : Exec σ α) (Q : α → σ → Prop) (E : Stop → σ → Prop) (s : σ) : Prop :=
  match m s with
  | (.ok a, s) => Q a s
  | (.error e, s) => E e s

variable {m : Exec σ α} {f : α → Exec σ β} {Q Q' : α → σ → Prop} {E E' : Stop → σ → Prop}
  {R : β → σ → Prop} {s s' : σ}

theorem bind_apply (m : Exec σ α) (f : α → Exec σ β) (s : σ) :
    (m >>= f) s = match m s with
      | (.ok a, s) => f a s
      | (.error e, s) => (.error e, s) := rfl

theorem lift_ok_bind (a : α) (f : α → Exec σ β) : lift (.ok a) >>= f = f a := rfl

theorem lift_error_bind (x : Fault) (f : α → Exec σ β) :
    lift (.error x) >>= f = stop (.fault x) := rfl

theorem guard_bind_pos {c : Prop} [Decidable c] {e : Stop} (h : c) (f : Unit → Exec σ β) :
    runIf c (stop e) >>= f = stop e := by
  rw [runIf, if_pos h]
  rfl

theorem guard_bind_neg {c : Prop} [Decidable c] {e : Stop} (h : ¬c) (f : Unit → Exec σ β) :
    runIf c (stop e) >>= f = f () := by
  rw [runIf, if_neg h]
  rfl

@[simp] theorem wp_pure (a : α) : wp (pure a) Q E s ↔ Q a s := Iff.rfl

@[simp] theorem wp_get {Q : σ → σ → Prop} : wp get Q E s ↔ Q s s := Iff.rfl

@[simp] theorem wp_modify {g : σ → σ} {Q : Unit → σ → Prop} :
    wp (modify g) Q E s ↔ Q () (g s) := Iff.rfl

@[simp] theorem wp_stop (e : Stop) : wp (stop e : Exec σ α) Q E s ↔ E e s := Iff.rfl

@[simp] theorem wp_bind : wp (m >>= f) R E = wp m (fun a => wp (f a) R E) E := by
  funext s
  unfold wp
  rw [bind_apply]
  rcases m s with ⟨_ | _, _⟩ <;> rfl

@[simp] theorem wp_lift_ok (a : α) : wp (lift (.ok a)) Q E s ↔ Q a s := Iff.rfl

@[simp] theorem wp_lift_error (x : Fault) :
    wp (lift (.error x) : Exec σ α) Q E s ↔ E (.fault x) s := Iff.rfl

theorem wp_lift {x : Except Fault α} :
    wp (lift x) Q E s ↔ (∀ a, x = .ok a → Q a s) ∧ ∀ e, x = .error e → E (.fault e) s := by
  cases x <;> simp

theorem wp_ite {c : Prop} [Decidable c] {m m' : Exec σ α} :
    wp (if c then m else m') Q E s ↔ (c → wp m Q E s) ∧ (¬c → wp m' Q E s) := by
  split_ifs with h <;> simp [h]

theorem wp_runIf {c : Prop} [Decidable c] {m : Exec σ Unit} {Q : Unit → σ → Prop} :
    wp (runIf c m) Q E s ↔ (c → wp m Q E s) ∧ (¬c → Q () s) := by
  rw [runIf, wp_ite, wp_pure]

theorem wp_mono (h : wp m Q E s) (hQ : ∀ a s', Q a s' → Q' a s') (hE : ∀ e s', E e s' → E' e s') :
    wp m Q' E' s := by
  unfold wp at h ⊢
  rcases hm : m s with ⟨_ | _, _⟩ <;> rw [hm] at h
  · exact hE _ _ h
  · exact hQ _ _ h

theorem wp_and (h : wp m Q E s) (h' : wp m Q' E' s) :
    wp m (fun a s' => Q a s' ∧ Q' a s') (fun e s' => E e s' ∧ E' e s') s := by
  unfold wp at h h' ⊢
  rcases hm : m s with ⟨_ | _, _⟩ <;> rw [hm] at h h' <;> exact ⟨h, h'⟩

theorem wp_of_eq {a : α} (h : m s = (.ok a, s')) : wp m Q E s ↔ Q a s' := by
  unfold wp
  rw [h]

/-- A program that never stops returns. -/
theorem returns_of_wp (h : wp m Q (fun _ _ => False) s) :
    ∃ a s', m s = (.ok a, s') ∧ Q a s' := by
  unfold wp at h
  rcases hm : m s with ⟨e | a, s'⟩ <;> rw [hm] at h
  · exact absurd h id
  · exact ⟨a, s', rfl, h⟩

theorem value_of_wp (h : wp m Q E s) {a : α} (ha : (m s).1 = .ok a) : Q a (m s).2 := by
  unfold wp at h
  rcases hm : m s with ⟨e | a', s'⟩ <;> rw [hm] at h ha
  · cases ha
  · rwa [← Except.ok.inj ha]

theorem stop_of_wp (h : wp m Q E s) {e : Stop} (he : (m s).1 = .error e) : E e (m s).2 := by
  unfold wp at h
  rcases hm : m s with ⟨e' | a, s'⟩ <;> rw [hm] at h he
  · rwa [← Except.error.inj he]
  · cases he

theorem wp_last {I : σ → Prop} : wp m (fun _ => I) (fun _ => I) s ↔ I (m s).2 := by
  unfold wp
  rcases m s with ⟨_ | _, _⟩ <;> rfl

theorem last_of_wp {I : σ → Prop} (h : wp m (fun _ => I) (fun _ => I) s) : I (m s).2 :=
  wp_last.mp h

/-- The loop rule: I holds between rounds. -/
theorem wp_loop (body : Nat → Exec σ Unit) (I : Nat → σ → Prop) {n i : Nat}
    (hbody : ∀ k s, i ≤ k → k < i + n → I k s → wp (body k) (fun _ => I (k + 1)) E s)
    (hs : I i s) : wp (loop body n i) (fun _ => I (i + n)) E s := by
  induction n generalizing i s with
  | zero => exact hs
  | succ n ih =>
    rw [loop, wp_bind]
    refine wp_mono (hbody i s le_rfl (by omega) hs) (fun _ s' hs' => ?_) fun _ _ h => h
    have hrest := ih (i := i + 1) (s := s') (fun k t hk hlt => hbody k t (by omega) (by omega)) hs'
    rwa [Nat.add_assoc, Nat.add_comm 1] at hrest

/-- The loop rule with a variable. -/
theorem wp_fold (body : Nat → α → Exec σ α) (I : Nat → α → σ → Prop) {n i : Nat} {a : α}
    (hbody : ∀ k a s, i ≤ k → k < i + n → I k a s → wp (body k a) (I (k + 1)) E s)
    (hs : I i a s) : wp (fold body n i a) (I (i + n)) E s := by
  induction n generalizing i a s with
  | zero => exact hs
  | succ n ih =>
    rw [fold, wp_bind]
    refine wp_mono (hbody i a s le_rfl (by omega) hs) (fun b s' hs' => ?_) fun _ _ h => h
    have hrest := ih (i := i + 1) (a := b) (s := s')
      (fun k c t hk hlt => hbody k c t (by omega) (by omega)) hs'
    rwa [Nat.add_assoc, Nat.add_comm 1] at hrest

/-- A loop establishes what one of its rounds does and the others keep. -/
theorem wp_loop_reach (body : Nat → Exec σ Unit) {I P : σ → Prop} {n i k : Nat} (hk : i ≤ k)
    (hlt : k < i + n) (hI : ∀ j s, I s → wp (body j) (fun _ => I) (fun _ _ => True) s)
    (hat : ∀ s, I s → wp (body k) (fun _ => P) (fun _ _ => True) s)
    (hP : ∀ j s, P s → wp (body j) (fun _ => P) (fun _ _ => True) s) (hs : I s) :
    wp (loop body n i) (fun _ => P) (fun _ _ => True) s := by
  have hloop : wp (loop body n i) (fun _ s => if i + n ≤ k then I s else P s)
      (fun _ _ => True) s := by
    apply wp_loop body (fun j s => if j ≤ k then I s else P s)
    · intro j t _ _ ht
      rcases Nat.lt_trichotomy j k with hj | rfl | hj
      · rw [if_pos hj.le] at ht
        simp only [if_pos (show j + 1 ≤ k from hj)]
        exact hI j t ht
      · rw [if_pos le_rfl] at ht
        simp only [if_neg (Nat.not_succ_le_self j)]
        exact hat t ht
      · rw [if_neg (Nat.not_le.mpr hj)] at ht
        simp only [if_neg (show ¬ j + 1 ≤ k by omega)]
        exact hP j t ht
    · rwa [if_pos hk]
  simp only [if_neg (Nat.not_le.mpr hlt)] at hloop
  exact hloop

theorem loop_add (body : Nat → Exec σ Unit) (m n i : Nat) :
    wp (loop body (m + n) i) =
      fun Q E => wp (loop body m i) (fun _ => wp (loop body n (i + m)) Q E) E := by
  funext Q E
  induction m generalizing i with
  | zero =>
    rw [Nat.zero_add]
    rfl
  | succ m ih =>
    rw [Nat.succ_add, loop, loop, wp_bind, wp_bind]
    congr 1
    funext a
    rw [ih, Nat.add_assoc, Nat.add_comm 1]

/-- The program keeps the condition I, whether it returns or stops, and returns what R allows. -/
def Yields (I : σ → Prop) (R : α → Prop) (m : Exec σ α) : Prop :=
  ∀ s, I s → wp m (fun a s' => R a ∧ I s') (fun _ => I) s

abbrev Keeps (I : σ → Prop) (m : Exec σ α) : Prop := Yields I (fun _ => True) m

namespace Yields

variable {I : σ → Prop} {R : α → Prop} {R' : β → Prop}

theorem pure {a : α} (h : R a) : Yields I R (Pure.pure a : Exec σ α) := fun _ hs => ⟨h, hs⟩

theorem stop (e : Stop) : Yields I R (Exec.stop e : Exec σ α) := fun _ hs => hs

theorem bind (hm : Yields I R m) (hf : ∀ a, R a → Yields I R' (f a)) : Yields I R' (m >>= f) := by
  intro s hs
  rw [wp_bind]
  exact wp_mono (hm s hs) (fun a s' hs' => hf a hs'.1 s' hs'.2) fun _ _ he => he

theorem lift_bind {x : Except Fault α} (hf : ∀ a, x = .ok a → Yields I R' (f a)) :
    Yields I R' (lift x >>= f) := by
  intro s hs
  rw [wp_bind, wp_lift]
  exact ⟨fun a ha => hf a ha s hs, fun _ _ => hs⟩

theorem guard_bind {c : Prop} [Decidable c] {e : Stop} {g : Unit → Exec σ β}
    (hg : ¬c → Yields I R' (g ())) : Yields I R' (Exec.runIf c (Exec.stop e) >>= g) := by
  intro s hs
  rw [wp_bind, wp_runIf]
  exact ⟨fun _ => hs, fun hc => hg hc s hs⟩

/-- The loop rule with a variable: R holds of it between rounds. -/
theorem fold {body : Nat → α → Exec σ α} (R : Nat → α → Prop) {n i : Nat} {a : α}
    (hbody : ∀ k a, i ≤ k → k < i + n → R k a → Yields I (R (k + 1)) (body k a)) (ha : R i a) :
    Yields I (R (i + n)) (Exec.fold body n i a) := by
  induction n generalizing i a with
  | zero => exact pure ha
  | succ n ih =>
    rw [Exec.fold]
    refine bind (hbody i a le_rfl (by omega) ha) fun b hb => ?_
    have hrest := ih (fun k c hk hlt => hbody k c (by omega) (by omega)) hb
    rwa [Nat.add_assoc, Nat.add_comm 1] at hrest

theorem keeps (hm : Yields I R m) : Keeps I m := fun s hs =>
  wp_mono (hm s hs) (fun _ _ h => ⟨trivial, h.2⟩) fun _ _ he => he

end Yields

namespace Keeps

variable {I : σ → Prop} {R' : β → Prop}

theorem bind (hm : Keeps I m) (hf : ∀ a, Yields I R' (f a)) : Yields I R' (m >>= f) :=
  Yields.bind hm fun a _ => hf a

theorem any (m : Exec σ α) : Keeps (fun _ => True) m := by
  intro s _
  unfold wp
  split <;> simp

theorem runIf {c : Prop} [Decidable c] {m : Exec σ Unit} (hm : c → Keeps I m) :
    Keeps I (Exec.runIf c m) := by
  intro s hs
  rw [wp_runIf]
  exact ⟨fun hc => hm hc s hs, fun _ => ⟨trivial, hs⟩⟩

theorem loop {body : Nat → Exec σ Unit} {n i : Nat}
    (hbody : ∀ k, i ≤ k → k < i + n → Keeps I (body k)) : Keeps I (Exec.loop body n i) := by
  intro s hs
  refine wp_mono (wp_loop body (fun _ => I) (fun k t hk hlt ht => ?_) hs) (fun _ _ h => ⟨trivial, h⟩)
    fun _ _ he => he
  exact wp_mono (hbody k hk hlt t ht) (fun _ _ h => h.2) fun _ _ he => he

end Keeps

theorem last_of_keeps {I : σ → Prop} (hm : Keeps I m) (hs : I s) : I (m s).2 :=
  last_of_wp (wp_mono (hm s hs) (fun _ _ h => h.2) fun _ _ he => he)

/-- Under a condition on the state a computation that cannot change it may fail. -/
theorem wp_lift_bind_iff {I : σ → Prop} (hs : I s) {x : Except Fault α} :
    wp (lift x >>= f) R (fun _ => I) s ↔ ∀ a, x = .ok a → wp (f a) R (fun _ => I) s := by
  rw [wp_bind, wp_lift]
  exact and_iff_left fun _ _ => hs

theorem not_wp_of_keeps {I : σ → Prop} (hm : Keeps (fun s => ¬ I s) m)
    (hQ : ∀ a s, Q a s → I s) (hs : ¬ I s) : ¬ wp m Q (fun _ => I) s := fun hwp =>
  last_of_keeps hm hs (last_of_wp (wp_mono hwp hQ fun _ _ h => h))

theorem holds_of_wp {I : σ → Prop} (hm : Keeps (fun s => ¬ I s) m) (hQ : ∀ a s, Q a s → I s)
    (h : wp m Q (fun _ => I) s) : I s := by
  by_contra hs
  exact not_wp_of_keeps hm hQ hs h

/-- A run that stops does so in one of the ways in P. -/
structure StopsIn (P : Stop → Prop) (m : Exec σ α) : Prop where
  stop : ∀ s e, (m s).1 = .error e → P e

namespace StopsIn

variable {P : Stop → Prop} {m : Exec σ α}

theorem wp (hm : StopsIn P m) (s : σ) : wp m (fun _ _ => True) (fun e _ => P e) s := by
  have hstop := hm.stop s
  unfold Exec.wp
  rcases hrun : m s with ⟨e | a, t⟩
  · rw [hrun] at hstop
    exact hstop e rfl
  · trivial

theorem of_wp (h : ∀ s, Exec.wp m (fun _ _ => True) (fun e _ => P e) s) : StopsIn P m :=
  ⟨fun s _ he => stop_of_wp (h s) he⟩

theorem pure (a : α) : StopsIn P (Pure.pure a : Exec σ α) := of_wp fun _ => trivial

theorem modify (g : σ → σ) : StopsIn P (Exec.modify g) := of_wp fun _ => trivial

theorem stopped {e : Stop} (h : P e) : StopsIn P (Exec.stop e : Exec σ α) := of_wp fun _ => h

theorem lift {x : Except Fault α} (h : ∀ f, x = .error f → P (.fault f)) :
    StopsIn P (Exec.lift x : Exec σ α) :=
  of_wp fun _ => wp_lift.mpr ⟨fun _ _ => trivial, h⟩

theorem bind {g : α → Exec σ β} (hm : StopsIn P m) (hg : ∀ a, StopsIn P (g a)) :
    StopsIn P (m >>= g) := by
  apply of_wp
  intro s
  rw [wp_bind]
  exact wp_mono (hm.wp s) (fun a s' _ => (hg a).wp s') fun _ _ he => he

theorem runIf {c : Prop} [Decidable c] {m : Exec σ Unit} (hm : StopsIn P m) :
    StopsIn P (Exec.runIf c m) := by
  unfold Exec.runIf
  split_ifs
  · exact hm
  · exact pure ()

theorem loop {body : Nat → Exec σ Unit} (hbody : ∀ k, StopsIn P (body k)) (n i : Nat) :
    StopsIn P (Exec.loop body n i) := by
  induction n generalizing i with
  | zero => exact pure ()
  | succ n ih => exact bind (hbody i) fun _ => ih (i + 1)

theorem fold {body : Nat → α → Exec σ α} (hbody : ∀ k a, StopsIn P (body k a)) (n i : Nat)
    (a : α) : StopsIn P (Exec.fold body n i a) := by
  induction n generalizing i a with
  | zero => exact pure a
  | succ n ih => exact bind (hbody i a) fun b => ih (i + 1) b

end StopsIn

/-- Every run that stops does so at a fault. -/
abbrev FaultsOnly (m : Exec σ α) : Prop := StopsIn (fun e => ∃ f, e = .fault f) m

theorem FaultsOnly.lift (x : Except Fault α) : FaultsOnly (Exec.lift x : Exec σ α) :=
  StopsIn.lift fun f _ => ⟨f, rfl⟩

theorem FaultsOnly.wp_bind {I : σ → Prop} (hm : FaultsOnly m) (hkeeps : Keeps I m)
    (hE : ∀ f s, E (.fault f) s) (hs : I s) (hf : ∀ a s, I s → Exec.wp (f a) R E s) :
    Exec.wp (m >>= f) R E s := by
  rw [Exec.wp_bind]
  apply wp_mono (wp_and (StopsIn.wp hm s) (hkeeps s hs))
  · intro a s' h
    exact hf a s' h.2.2
  · intro e s' h
    obtain ⟨f, rfl⟩ := h.1
    exact hE f s'

/-- No run ends at the fault. -/
structure Avoids (f : Fault) (m : Exec σ α) : Prop where
  ne : ∀ s, (m s).1 ≠ .error (.fault f)

namespace Avoids

variable {f : Fault} {m : Exec σ α}

theorem stopsIn (hm : Avoids f m) : StopsIn (· ≠ .fault f) m :=
  ⟨fun s _ he hf => hm.ne s (he.trans (congrArg Except.error hf))⟩

theorem of_stopsIn (hm : StopsIn (· ≠ .fault f) m) : Avoids f m :=
  ⟨fun s hs => hm.stop s _ hs rfl⟩

theorem pure (a : α) : Avoids f (Pure.pure a : Exec σ α) := of_stopsIn (.pure a)

theorem modify (g : σ → σ) : Avoids f (Exec.modify g) := of_stopsIn (.modify g)

theorem lift {x : Except Fault α} (h : x ≠ .error f) : Avoids f (Exec.lift x : Exec σ α) := by
  apply of_stopsIn
  apply StopsIn.lift
  intro e he heq
  rw [he, Stop.fault.inj heq] at h
  exact h rfl

theorem bind {g : α → Exec σ β} (hm : Avoids f m) (hg : ∀ a, Avoids f (g a)) :
    Avoids f (m >>= g) :=
  of_stopsIn (hm.stopsIn.bind fun a => (hg a).stopsIn)

theorem loop {body : Nat → Exec σ Unit} (hbody : ∀ k, Avoids f (body k)) (n i : Nat) :
    Avoids f (Exec.loop body n i) :=
  of_stopsIn (.loop (fun k => (hbody k).stopsIn) n i)

theorem fold {body : Nat → α → Exec σ α} (hbody : ∀ k a, Avoids f (body k a)) (n i : Nat) (a : α) :
    Avoids f (Exec.fold body n i a) :=
  of_stopsIn (.fold (fun k a => (hbody k a).stopsIn) n i a)

end Avoids

end Exec

end PerfTools
