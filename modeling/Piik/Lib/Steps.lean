/-
  Runs of a partial step function under any order of events, the logs that they
  write, and quantities summed over a list of threads.
-/
import Mathlib

namespace Steps

universe u v

variable {σ : Type u} {ε : Type v} {step : σ → ε → Option σ} {init s s' : σ} {es : List ε}

/-- The states that the events lead to, each event being possible where it happens. -/
inductive Reaches (step : σ → ε → Option σ) (init : σ) : List ε → σ → Prop
  | start : Reaches step init [] init
  | next {es : List ε} {e : ε} {s s' : σ} :
      Reaches step init es s → step s e = some s' → Reaches step init (es ++ [e]) s'

/-- What holds at first and is kept by every event holds in every state reached. -/
theorem Reaches.invariant {P : σ → Prop} (h : Reaches step init es s) (hinit : P init)
    (hstep : ∀ {s e s'}, P s → step s e = some s' → P s') : P s := by
  induction h with
  | start => exact hinit
  | next _ he ih => exact hstep ih he

theorem Reaches.single {e : ε} (h : step init e = some s) : Reaches step init [e] s :=
  Reaches.start.next h

theorem Reaches.trans {es' : List ε} (h : Reaches step init es s) (h' : Reaches step s es' s') :
    Reaches step init (es ++ es') s' := by
  induction h' with
  | start => simpa using h
  | next _ he ih =>
    rw [← List.append_assoc]
    exact ih.next he

/-- A run of a narrower step function is a run. -/
theorem Reaches.mono {step' : σ → ε → Option σ} (h : Reaches step' init es s)
    (hstep : ∀ {s e s'}, step' s e = some s' → step s e = some s') : Reaches step init es s := by
  induction h with
  | start => exact .start
  | next _ he ih => exact ih.next (hstep he)

/-- The events, one after another. -/
def run (step : σ → ε → Option σ) (init : σ) (es : List ε) : Option σ :=
  es.foldlM step init

theorem reaches_of_run (h : run step init es = some s) : Reaches step init es s := by
  induction es using List.reverseRecOn generalizing s with
  | nil =>
    obtain rfl := Option.some.inj h
    exact .start
  | append_singleton es e ih =>
    rw [run, List.foldlM_append] at h
    obtain ⟨mid, hmid, he⟩ := Option.bind_eq_some_iff.1 h
    exact (ih hmid).next (by simpa using he)

theorem run_of_reaches (h : Reaches step init es s) : run step init es = some s := by
  induction h with
  | start => rfl
  | next _ he ih =>
    rw [run] at ih ⊢
    rw [List.foldlM_append, ih]
    simpa using he

/-! ## Logs -/

section Logs

variable {α : Type u} {P : List α → α → Prop} {log : List α} {o : α}

/-- Every entry stands in the relation to what was written before it. -/
def Along (P : List α → α → Prop) (log : List α) : Prop :=
  ∀ earlier o later, log = earlier ++ o :: later → P earlier o

@[simp] theorem along_nil : Along P [] := by
  intro earlier o later h
  simp at h

@[simp] theorem along_snoc : Along P (log ++ [o]) ↔ Along P log ∧ P log o := by
  constructor
  · intro h
    refine ⟨fun earlier e later hlog => h earlier e (later ++ [o]) (by simp [hlog]), h log o [] rfl⟩
  · rintro ⟨h, ho⟩ earlier e later hlog
    rcases List.eq_nil_or_concat later with rfl | ⟨later, last, rfl⟩
    · obtain ⟨rfl, he⟩ := List.append_inj' hlog rfl
      obtain rfl := List.singleton_inj.1 he
      exact ho
    · have hcut : log ++ [o] = (earlier ++ e :: later) ++ [last] := by simpa using hlog
      exact h earlier e later (List.append_inj' hcut rfl).1

end Logs

/-! ## Threads -/

section Threads

variable {α : Type u} {l : List α} {w w' : α} {i : ℕ}

/-- One thread moves: the sum changes by its share. -/
theorem sum_set (w' : α) (g : α → ℕ) (h : l[i]? = some w) :
    ((l.set i w').map g).sum + g w = (l.map g).sum + g w' := by
  induction l generalizing i with
  | nil => simp at h
  | cons x l ih =>
    cases i with
    | zero =>
      obtain rfl := Option.some.inj h
      simp only [List.set_cons_zero, List.map_cons, List.sum_cons]
      omega
    | succ i =>
      have := ih (by simpa using h)
      simp only [List.set_cons_succ, List.map_cons, List.sum_cons]
      omega

theorem sum_append_singleton {g : α → ℕ} : ((l ++ [w]).map g).sum = (l.map g).sum + g w := by
  simp

end Threads

end Steps
