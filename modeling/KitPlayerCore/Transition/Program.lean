-- SUMMARY: Programs over an interface of operations, their fold, and the readings of it that the development uses.
import Mathlib.Logic.Basic

/-!
# Programs

A program is a tree. A node performs one operation and branches on its answer.
A thread of a machine holds the part of its program that it has not performed
yet. `Program.fold` gives a program a meaning operation by operation, and it is
compositional in `bind`. Folding into predicates that admit some of the answers
gives `Program.Safe`, and folding into state transformers gives `Program.run`, or
`Program.attempt` where an operation may block.
-/

namespace Transition

universe u v w

/-- Programs over the operations `Op`, where `op` is answered in `Res op`. -/
inductive Program (Op : Type u) (Res : Op → Type v) (α : Type w) where
  | ret (a : α)
  | act (op : Op) (k : Res op → Program Op Res α)

namespace Program

variable {Op : Type u} {Res : Op → Type v} {α β γ : Type w}

/-! ## Sequencing -/

def bind : Program Op Res α → (α → Program Op Res β) → Program Op Res β
  | .ret a, f => f a
  | .act op k, f => .act op fun r => (k r).bind f

instance : Monad (Program Op Res) where
  pure := .ret
  bind := bind

/-- The program of one operation. -/
def perform {Op : Type u} {Res : Op → Type v} (op : Op) : Program Op Res (Res op) :=
  .act op .ret

/-- Nothing is left to do. -/
def done : Program Op Res α → Bool
  | .ret _ => true
  | .act _ _ => false

@[simp] theorem done_ret (a : α) : done (.ret a : Program Op Res α) = true := rfl

@[simp] theorem done_act (op : Op) (k : Res op → Program Op Res α) : done (.act op k) = false := rfl

@[simp] theorem pure_eq (a : α) : (pure a : Program Op Res α) = .ret a := rfl

@[simp] theorem ret_bind (a : α) (f : α → Program Op Res β) : (.ret a >>= f) = f a := rfl

@[simp] theorem act_bind (op : Op) (k : Res op → Program Op Res α) (f : α → Program Op Res β) :
    (.act op k >>= f) = .act op fun r => k r >>= f := rfl

@[simp] theorem perform_bind {Res : Op → Type w} (op : Op) (f : Res op → Program Op Res β) :
    (perform op >>= f) = .act op f := rfl

theorem bind_ret (p : Program Op Res α) : p >>= .ret = p := by
  induction p with
  | ret a => rfl
  | act op k ih =>
    simp only [act_bind]
    exact congrArg _ (funext ih)

theorem bind_assoc (p : Program Op Res α) (f : α → Program Op Res β)
    (g : β → Program Op Res γ) : (p >>= f) >>= g = p >>= fun a => f a >>= g := by
  induction p with
  | ret a => rfl
  | act op k ih =>
    simp only [act_bind]
    exact congrArg _ (funext ih)

/-! ## What is left -/

/-- What may be left of the program before it has performed an operation in `stop`. -/
inductive Within (stop : Op → Prop) (p : Program Op Res α) : Program Op Res α → Prop where
  | start : Within stop p p
  | step {op : Op} {k : Res op → Program Op Res α} (r : Res op) :
      Within stop p (.act op k) → ¬ stop op → Within stop p (k r)

/-- What is left of a program after one operation. -/
inductive After : Program Op Res α → Program Op Res α → Prop where
  | act (op : Op) (k : Res op → Program Op Res α) (r : Res op) : After (k r) (.act op k)

theorem wellFounded_after : WellFounded (@After Op Res α) := by
  refine ⟨fun p => ?_⟩
  induction p with
  | ret a =>
    refine ⟨_, ?_⟩
    rintro q ⟨⟩
  | act op k ih =>
    refine ⟨_, ?_⟩
    rintro q ⟨⟩
    exact ih _

/-! ## Folding -/

/-- Read every operation as a transformer of what follows it. -/
def fold {L : Type*} (Φ : (op : Op) → (Res op → L) → L) : Program Op Res α → (α → L) → L
  | .ret a, post => post a
  | .act op k, post => Φ op fun r => (k r).fold Φ post

section fold

variable {L : Type*} (Φ : (op : Op) → (Res op → L) → L)

@[simp] theorem fold_ret (a : α) (post : α → L) : fold Φ (.ret a) post = post a := rfl

@[simp] theorem fold_act (op : Op) (k : Res op → Program Op Res α) (post : α → L) :
    fold Φ (.act op k) post = Φ op fun r => fold Φ (k r) post := rfl

@[simp] theorem fold_perform {Op : Type u} {Res : Op → Type v} (Φ : (op : Op) → (Res op → L) → L)
    (op : Op) (post : Res op → L) : fold Φ (perform op) post = Φ op post := rfl

@[simp] theorem fold_bind (p : Program Op Res α) (f : α → Program Op Res β) (post : β → L) :
    fold Φ (p >>= f) post = fold Φ p fun a => fold Φ (f a) post := by
  induction p with
  | ret a => rfl
  | act op k ih =>
    simp only [act_bind, fold_act]
    exact congrArg _ (funext ih)

end fold

/-! ## Safety -/

/-- What programs may rely on and must keep to, in each of the modes `M` that the
    operations lead through. -/
structure Rules (Op : Type u) (Res : Op → Type v) (M : Type*) where
  /-- The operation may be performed. -/
  ok : M → Op → Prop
  /-- The operation may be answered so. -/
  admits : M → (op : Op) → Res op → Prop
  /-- The mode that may follow the answer. -/
  next : M → (op : Op) → Res op → M → Prop

/-- From the mode `m` on, while every answer is admitted, every operation
    performed is ok, and a value returned meets `post` in the mode it is returned in. -/
def Safe {M : Type*} (R : Rules Op Res M) (p : Program Op Res α) (post : α → M → Prop) (m : M) :
    Prop :=
  p.fold (L := M → Prop)
    (fun op k m => R.ok m op ∧ ∀ r, R.admits m op r → ∀ m', R.next m op r m' → k r m') post m

section Safe

variable {M : Type*} {R : Rules Op Res M} {m : M}

@[simp] theorem safe_ret (a : α) (post : α → M → Prop) : Safe R (.ret a) post m ↔ post a m :=
  Iff.rfl

@[simp] theorem safe_act (op : Op) (k : Res op → Program Op Res α) (post : α → M → Prop) :
    Safe R (.act op k) post m ↔
      R.ok m op ∧ ∀ r, R.admits m op r → ∀ m', R.next m op r m' → Safe R (k r) post m' :=
  Iff.rfl

@[simp] theorem safe_perform {Op : Type u} {Res : Op → Type v} {R : Rules Op Res M} (op : Op)
    (post : Res op → M → Prop) :
    Safe R (perform op) post m ↔
      R.ok m op ∧ ∀ r, R.admits m op r → ∀ m', R.next m op r m' → post r m' :=
  Iff.rfl

@[simp] theorem safe_bind (p : Program Op Res α) (f : α → Program Op Res β)
    (post : β → M → Prop) :
    Safe R (p >>= f) post m ↔ Safe R p (fun a => Safe R (f a) post) m := by
  simp only [Safe, fold_bind]
  exact Iff.rfl

@[simp] theorem safe_ite (c : Prop) [Decidable c] (p q : Program Op Res α)
    (post : α → M → Prop) :
    Safe R (if c then p else q) post m ↔ (c → Safe R p post m) ∧ (¬ c → Safe R q post m) := by
  by_cases h : c <;> simp [h]

theorem Safe.mono {p : Program Op Res α} {post post' : α → M → Prop} (h : Safe R p post m)
    (hpost : ∀ a m, post a m → post' a m) : Safe R p post' m := by
  induction p generalizing m with
  | ret a => exact hpost a m h
  | act op k ih => exact ⟨h.1, fun r hr m' hm => ih r (h.2 r hr m' hm)⟩

theorem Safe.bind {p : Program Op Res α} {f : α → Program Op Res β} {mid : α → M → Prop}
    {post : β → M → Prop} (h : Safe R p mid m)
    (hf : ∀ a m, mid a m → Safe R (f a) post m) : Safe R (p >>= f) post m :=
  (safe_bind p f post).mpr (h.mono hf)

end Safe

/-! ## Operations -/

/-- Every operation that may be performed is ok, whatever is answered. -/
def Only (ok : Op → Prop) (p : Program Op Res α) : Prop :=
  p.fold (fun op k => ok op ∧ ∀ r, k r) fun _ => True

section Only

variable {ok : Op → Prop}

@[simp] theorem only_ret (a : α) : Only ok (.ret a : Program Op Res α) := trivial

@[simp] theorem only_act (op : Op) (k : Res op → Program Op Res α) :
    Only ok (.act op k) ↔ ok op ∧ ∀ r, Only ok (k r) := Iff.rfl

@[simp] theorem only_perform {Op : Type u} {Res : Op → Type v} {ok : Op → Prop} (op : Op) :
    Only ok (perform op : Program Op Res (Res op)) ↔ ok op := by
  simp [perform]

@[simp] theorem only_ite (c : Prop) [Decidable c] (p q : Program Op Res α) :
    Only ok (if c then p else q) ↔ (c → Only ok p) ∧ (¬ c → Only ok q) := by
  by_cases h : c <;> simp [h]

theorem Only.bind {p : Program Op Res α} {f : α → Program Op Res β} (hp : Only ok p)
    (hf : ∀ a, Only ok (f a)) : Only ok (p >>= f) := by
  induction p with
  | ret a => exact hf a
  | act op k ih => exact ⟨hp.1, fun r => ih r (hp.2 r)⟩

theorem Only.mono {ok' : Op → Prop} {p : Program Op Res α} (hp : Only ok p)
    (h : ∀ op, ok op → ok' op) : Only ok' p := by
  induction p with
  | ret a => trivial
  | act op k ih => exact ⟨h op hp.1, fun r => ih r (hp.2 r)⟩

/-- A program is safe from the modes in `I` if its operations are, and lead to such modes. -/
theorem Only.safe {M : Type*} {R : Rules Op Res M} {I : M → Prop} {p : Program Op Res α} {m : M}
    (hp : Only ok p) (hm : I m) (hok : ∀ m op, I m → ok op → R.ok m op)
    (hnext : ∀ m op r m', I m → ok op → R.next m op r m' → I m') :
    Safe R p (fun _ m => I m) m := by
  induction p generalizing m with
  | ret a => exact hm
  | act op k ih =>
    exact ⟨hok m op hm hp.1, fun r _ m' hm' => ih r (hp.2 r) (hnext m op r m' hm hp.1 hm')⟩

end Only

/-! ## Running alone -/

/-- Run a program on a state that nothing else changes. -/
def run {σ : Type*} (exec : (op : Op) → σ → Res op × σ) (p : Program Op Res α) (s : σ) : α × σ :=
  p.fold (L := σ → α × σ) (fun op k s => k (exec op s).1 (exec op s).2) Prod.mk s

section run

variable {σ : Type*} (exec : (op : Op) → σ → Res op × σ)

@[simp] theorem run_ret (a : α) (s : σ) : run exec (.ret a) s = (a, s) := rfl

@[simp] theorem run_act (op : Op) (k : Res op → Program Op Res α) (s : σ) :
    run exec (.act op k) s = run exec (k (exec op s).1) (exec op s).2 := rfl

@[simp] theorem run_perform {Op : Type u} {Res : Op → Type v} (exec : (op : Op) → σ → Res op × σ)
    (op : Op) (s : σ) : run exec (perform op) s = exec op s := rfl

@[simp] theorem run_bind (p : Program Op Res α) (f : α → Program Op Res β) (s : σ) :
    run exec (p >>= f) s = run exec (f (run exec p s).1) (run exec p s).2 := by
  induction p generalizing s with
  | ret a => rfl
  | act op k ih => exact ih _ _

@[simp] theorem run_map {α β : Type w} (f : α → β) (p : Program Op Res α) (s : σ) :
    run exec (f <$> p) s = (f (run exec p s).1, (run exec p s).2) :=
  run_bind exec p (fun a => .ret (f a)) s

theorem Only.run_invariant {ok : Op → Prop} {I : σ → Prop} {p : Program Op Res α} {s : σ}
    (hp : Only ok p) (hexec : ∀ op s, ok op → I s → I (exec op s).2) (h : I s) :
    I (run exec p s).2 := by
  induction p generalizing s with
  | ret a => exact h
  | act op k ih => exact ih _ (hp.2 _) (hexec op s hp.1 h)

end run

/-! ## Running where an operation may block -/

/-- Run a program on a state that nothing else changes, up to the first operation that blocks. -/
def attempt {σ : Type*} (exec : (op : Op) → σ → Option (Res op × σ)) (p : Program Op Res α)
    (s : σ) : Option (α × σ) :=
  p.fold (L := σ → Option (α × σ)) (fun op k s => (exec op s).bind fun r => k r.1 r.2)
    (fun a s => some (a, s)) s

section attempt

variable {σ : Type*} {exec : (op : Op) → σ → Option (Res op × σ)}

@[simp] theorem attempt_ret (a : α) (s : σ) : attempt exec (.ret a) s = some (a, s) := rfl

@[simp] theorem attempt_act (op : Op) (k : Res op → Program Op Res α) (s : σ) :
    attempt exec (.act op k) s = (exec op s).bind fun r => attempt exec (k r.1) r.2 := rfl

/-- A safe program comes to its end, if in the states that a mode stands for no operation blocks
    that is ok in the mode, and its answer is admitted. -/
theorem Safe.attempt {M : Type*} {R : Rules Op Res M} {I : M → σ → Prop} {p : Program Op Res α}
    {post : α → M → Prop} {m : M} {s : σ} (hp : Safe R p post m) (hs : I m s)
    (hexec : ∀ m op s, I m s → R.ok m op →
      ∃ r s' m', exec op s = some (r, s') ∧ R.admits m op r ∧ R.next m op r m' ∧ I m' s') :
    ∃ a s' m', attempt exec p s = some (a, s') ∧ post a m' ∧ I m' s' := by
  induction p generalizing m s with
  | ret a => exact ⟨a, s, m, rfl, hp, hs⟩
  | act op k ih =>
    obtain ⟨hok, hk⟩ := hp
    obtain ⟨r, s', m', hop, hadmits, hnext, hs'⟩ := hexec m op s hs hok
    obtain ⟨a, t, n, hrun, hpost, ht⟩ := ih r (hk r hadmits m' hnext) hs'
    exact ⟨a, t, n, by rw [attempt_act, hop, Option.bind_some, hrun], hpost, ht⟩

end attempt

/-! ## Two runs -/

/-- From related states, two runs of the program return the same value, and end in
    states that are related. -/
def Agree {σ τ : Type*} (exec : (op : Op) → σ → Res op × σ) (exec' : (op : Op) → τ → Res op × τ)
    (R : σ → τ → Prop) (p : Program Op Res α) : Prop :=
  ∀ s t, R s t → (run exec p s).1 = (run exec' p t).1 ∧ R (run exec p s).2 (run exec' p t).2

section Agree

variable {σ τ : Type*} {exec : (op : Op) → σ → Res op × σ} {exec' : (op : Op) → τ → Res op × τ}
  {R : σ → τ → Prop}

theorem agree_ret (a : α) : Agree exec exec' R (.ret a) := fun _ _ h => ⟨rfl, h⟩

theorem agree_act {op : Op} {k : Res op → Program Op Res α}
    (hop : ∀ s t, R s t → (exec op s).1 = (exec' op t).1 ∧ R (exec op s).2 (exec' op t).2)
    (hk : ∀ r, Agree exec exec' R (k r)) : Agree exec exec' R (.act op k) := by
  intro s t h
  obtain ⟨hanswer, hstate⟩ := hop s t h
  simp only [run_act, hanswer]
  exact hk _ _ _ hstate

theorem agree_ite {c : Prop} [Decidable c] {p q : Program Op Res α} (hp : Agree exec exec' R p)
    (hq : Agree exec exec' R q) : Agree exec exec' R (if c then p else q) := by
  split
  · exact hp
  · exact hq

theorem Agree.bind {p : Program Op Res α} {f : α → Program Op Res β} (hp : Agree exec exec' R p)
    (hf : ∀ a, Agree exec exec' R (f a)) : Agree exec exec' R (p >>= f) := by
  intro s t h
  obtain ⟨hvalue, hstate⟩ := hp s t h
  simp only [run_bind, hvalue]
  exact hf _ _ _ hstate

/-- Two runs agree if the operations are answered alike in related states. -/
theorem Only.agree {ok : Op → Prop} {p : Program Op Res α} (hp : Only ok p)
    (hop : ∀ op s t, ok op → R s t →
      (exec op s).1 = (exec' op t).1 ∧ R (exec op s).2 (exec' op t).2) :
    Agree exec exec' R p := by
  induction p with
  | ret a => exact agree_ret a
  | act op k ih => exact agree_act (fun s t => hop op s t hp.1) fun r => ih r (hp.2 r)

end Agree

end Program

end Transition
