import FloodEws.Runs
import Mathlib.Data.List.Basic
/-!
# Threads — interleaved threads over shared state

A thread is a local state that says what it does next; one step of it is atomic and may change the state it shares with
the others.  A pool takes steps of its threads in any order, and new threads may come in at any time.

An invariant of a pool is proved one thread at a time (`Prog.local_invariant`): what holds of the shared state, of each
thread in it, and between any two threads.  What is not done yet but owed by some thread is another
(`Prog.owed_invariant`).
-/
namespace FloodEws

universe u v w

/-- `κ` is what the environment has to say in a step: which calls fail, which order a loop takes. -/
structure Prog (σ : Type u) (τ : Type v) (κ : Type w) where
  /-- the threads that may come in -/
  fresh : τ → Prop
  may : κ → τ → σ → Prop
  step : κ → τ → σ → τ × σ

structure Pool (σ : Type u) (τ : Type v) where
  shared : σ
  threads : List τ

inductive Sched (τ : Type v) (κ : Type w) where
  | spawn (t : τ)
  | run (i : Nat) (k : κ)

namespace Prog

variable {σ : Type u} {τ : Type v} {κ : Type w} (P : Prog σ τ κ)

/-- A step of the thread `t` at place `i`. -/
def stepAt (p : Pool σ τ) (i : Nat) (t : τ) (k : κ) : Pool σ τ :=
  ⟨(P.step k t p.shared).2, p.threads.set i (P.step k t p.shared).1⟩

def exec (p : Pool σ τ) : Sched τ κ → Pool σ τ
  | .spawn t => { p with threads := p.threads ++ [t] }
  | .run i k => match p.threads[i]? with
    | none => p
    | some t => P.stepAt p i t k

def sys (s : σ) : Sys (Pool σ τ) (Sched τ κ) where
  init := ⟨s, []⟩
  enabled := fun p a => match a with
    | .spawn t => P.fresh t
    | .run i k => ∃ t, p.threads[i]? = some t ∧ P.may k t p.shared
  exec := P.exec

variable {P}

theorem exec_run {p : Pool σ τ} {i : Nat} {t : τ} (h : p.threads[i]? = some t) (k : κ) :
    P.exec p (.run i k) = P.stepAt p i t k := by
  simp only [exec, h]

/-- The threads but the one at place `i`. -/
def Other (p : Pool σ τ) (i : Nat) (u : τ) : Prop := ∃ j, j ≠ i ∧ p.threads[j]? = some u

theorem Other.mem {p : Pool σ τ} {i : Nat} {u : τ} (h : Other p i u) : u ∈ p.threads := by
  obtain ⟨j, -, hj⟩ := h
  exact List.mem_of_getElem? hj

theorem getElem?_stepAt {p : Pool σ τ} {i : Nat} {t : τ} (h : p.threads[i]? = some t) (k : κ) (j : Nat) :
    (P.stepAt p i t k).threads[j]? = if j = i then some (P.step k t p.shared).1 else p.threads[j]? := by
  have hi : i < p.threads.length := (List.getElem?_eq_some_iff.1 h).1
  by_cases hj : j = i
  · subst hj
    simp [stepAt, hi]
  · simp [stepAt, List.getElem?_set_ne (Ne.symm hj), hj]

theorem mem_stepAt {p : Pool σ τ} {i : Nat} {t u : τ} (h : p.threads[i]? = some t) {k : κ}
    (hu : u ∈ (P.stepAt p i t k).threads) : u = (P.step k t p.shared).1 ∨ Other p i u := by
  obtain ⟨j, hj⟩ := List.mem_iff_getElem?.1 hu
  rw [getElem?_stepAt h] at hj
  by_cases hji : j = i
  · rw [if_pos hji] at hj
    exact .inl (Option.some.inj hj).symm
  · rw [if_neg hji] at hj
    exact .inr ⟨j, hji, hj⟩

/-- What holds of the shared state, of each thread and between any two. -/
structure Local (I : σ → Prop) (L : σ → τ → Prop) (D : τ → τ → Prop) (p : Pool σ τ) : Prop where
  shared : I p.shared
  each : ∀ t ∈ p.threads, L p.shared t
  apart : ∀ (i j : Nat) (t u : τ), i ≠ j → p.threads[i]? = some t → p.threads[j]? = some u → D t u

section

variable {I : σ → Prop} {L : σ → τ → Prop} {D : τ → τ → Prop} {p : Pool σ τ}

theorem Local.spawn (h : Local I L D p) {t : τ} (hL : L p.shared t) (hD : ∀ u, D t u ∧ D u t) :
    Local I L D (P.exec p (.spawn t)) := by
  refine ⟨h.shared, fun u hu => ?_, fun i j u v hij hi hj => ?_⟩
  · rcases List.mem_append.1 hu with hu | hu
    · exact h.each u hu
    · rw [List.mem_singleton.1 hu]
      exact hL
  · have hnew : ∀ (l : Nat) (x : τ), (p.threads ++ [t])[l]? = some x → p.threads[l]? = some x ∨ x = t := by
      intro l x hl
      by_cases hlt : l < p.threads.length
      · rw [List.getElem?_append_left hlt] at hl
        exact .inl hl
      · rw [List.getElem?_append_right (by omega)] at hl
        exact .inr (List.mem_singleton.1 (List.mem_of_getElem? hl))
    rcases hnew i u hi with hi | rfl
    · rcases hnew j v hj with hj | rfl
      · exact h.apart i j u v hij hi hj
      · exact (hD u).2
    · exact (hD v).1

/-- **One thread's step**: it keeps what holds of the shared state and of itself, and disturbs no other thread. -/
theorem Local.run (h : Local I L D p) {i : Nat} {t : τ} {k : κ} (ht : p.threads[i]? = some t)
    (hI : I (P.step k t p.shared).2) (hL : L (P.step k t p.shared).2 (P.step k t p.shared).1)
    (hothers : ∀ u, Other p i u → L p.shared u → D t u → D u t →
      L (P.step k t p.shared).2 u ∧ D (P.step k t p.shared).1 u ∧ D u (P.step k t p.shared).1) :
    Local I L D (P.exec p (.run i k)) := by
  have hother : ∀ u, Other p i u → L (P.step k t p.shared).2 u ∧ D (P.step k t p.shared).1 u ∧
      D u (P.step k t p.shared).1 := by
    rintro u ⟨j, hj, hu⟩
    exact hothers u ⟨j, hj, hu⟩ (h.each u (List.mem_of_getElem? hu)) (h.apart i j t u (Ne.symm hj) ht hu)
      (h.apart j i u t hj hu ht)
  rw [exec_run ht]
  refine ⟨hI, fun u hu => ?_, fun a b u v hab ha hb => ?_⟩
  · rcases mem_stepAt ht hu with rfl | hu
    · exact hL
    · exact (hother u hu).1
  · rw [getElem?_stepAt ht] at ha hb
    by_cases hai : a = i
    · rw [if_pos hai] at ha
      rw [if_neg (by omega)] at hb
      rw [← Option.some.inj ha]
      exact (hother v ⟨b, by omega, hb⟩).2.1
    · rw [if_neg hai] at ha
      by_cases hbi : b = i
      · rw [if_pos hbi] at hb
        rw [← Option.some.inj hb]
        exact (hother u ⟨a, hai, ha⟩).2.2
      · rw [if_neg hbi] at hb
        exact h.apart a b u v hab ha hb

end

/-- **Invariants thread by thread.**  What holds at the start, of each thread that comes in, and is kept by one thread's
step, holds in every pool reached. -/
theorem local_invariant {I : σ → Prop} {L : σ → τ → Prop} {D : τ → τ → Prop} {ok : Pool σ τ → Sched τ κ → Prop}
    {s : σ} {p : Pool σ τ} (h : (P.sys s).Reachable ok p) (hinit : I s)
    (hfresh : ∀ x t, P.fresh t → L x t ∧ ∀ u, D t u ∧ D u t)
    (hstep : ∀ (p : Pool σ τ) (i : Nat) (t : τ) (k : κ), (P.sys s).Reachable ok p → p.threads[i]? = some t →
      P.may k t p.shared → ok p (.run i k) → Local I L D p → I (P.step k t p.shared).2 ∧ L (P.step k t p.shared).2 (P.step k t p.shared).1 ∧
        ∀ u, Other p i u → L p.shared u → D t u → D u t →
          L (P.step k t p.shared).2 u ∧ D (P.step k t p.shared).1 u ∧ D u (P.step k t p.shared).1) :
    Local I L D p := by
  refine h.invariant_with ⟨hinit, (fun t ht => by cases ht), (fun i j t u _ hi => by simp [sys] at hi)⟩ ?_
  intro p a hreach hp he hk
  cases a with
  | spawn t => exact hp.spawn (P := P) (hfresh p.shared t he).1 (hfresh p.shared t he).2
  | run i k =>
    obtain ⟨t, ht, hmay⟩ := he
    obtain ⟨hI, hL, hothers⟩ := hstep p i t k hreach ht hmay hk hp
    exact hp.run ht hI hL hothers

/-- Each `x` is settled, or some thread owes it. -/
def Owed {ι : Type*} (W : ι → σ → Prop) (E : ι → σ → τ → Prop) (p : Pool σ τ) : Prop :=
  ∀ x, W x p.shared ∨ ∃ t ∈ p.threads, E x p.shared t

theorem mem_iff_self_or_other {p : Pool σ τ} {i : Nat} {t : τ} (h : p.threads[i]? = some t) {u : τ} :
    u ∈ p.threads ↔ u = t ∨ Other p i u := by
  constructor
  · intro hu
    obtain ⟨j, hj⟩ := List.mem_iff_getElem?.1 hu
    by_cases hji : j = i
    · rw [hji, h] at hj
      exact .inl (Option.some.inj hj).symm
    · exact .inr ⟨j, hji, hj⟩
  · rintro (rfl | hu)
    · exact List.mem_of_getElem? h
    · exact hu.mem

theorem other_stepAt {p : Pool σ τ} {i : Nat} {t : τ} (h : p.threads[i]? = some t) (k : κ) {u : τ} (hu : Other p i u) :
    u ∈ (P.stepAt p i t k).threads := by
  obtain ⟨j, hj, hu⟩ := hu
  refine List.mem_of_getElem? (i := j) ?_
  rw [getElem?_stepAt h, if_neg hj, hu]

/-- **What is settled or owed stays so**, if no thread's step unsettles what nobody then owes, or drops what it owes
unsettled. -/
theorem owed_invariant {ι : Type*} {W : ι → σ → Prop} {E : ι → σ → τ → Prop} {ok : Pool σ τ → Sched τ κ → Prop} {s : σ}
    {p : Pool σ τ} (h : (P.sys s).Reachable ok p) (hinit : ∀ x, W x s)
    (hstep : ∀ (p : Pool σ τ) (i : Nat) (t : τ) (k : κ) (x : ι), (P.sys s).Reachable ok p → p.threads[i]? = some t →
      P.may k t p.shared → ok p (.run i k) → (W x p.shared ∨ E x p.shared t ∨ ∃ u, Other p i u ∧ E x p.shared u) →
        W x (P.step k t p.shared).2 ∨ E x (P.step k t p.shared).2 (P.step k t p.shared).1 ∨
          ∃ u, Other p i u ∧ E x (P.step k t p.shared).2 u) : Owed W E p := by
  refine h.invariant_with (fun x => .inl (hinit x)) ?_
  intro p a hreach hp he hk x
  cases a with
  | spawn t =>
    rcases hp x with hx | ⟨u, hu, hE⟩
    · exact .inl hx
    · exact .inr ⟨u, List.mem_append_left _ hu, hE⟩
  | run i k =>
    obtain ⟨t, ht, hmay⟩ := he
    show W x (P.exec p (.run i k)).shared ∨ ∃ u ∈ (P.exec p (.run i k)).threads, E x (P.exec p (.run i k)).shared u
    rw [exec_run ht]
    have hbefore : W x p.shared ∨ E x p.shared t ∨ ∃ u, Other p i u ∧ E x p.shared u := by
      rcases hp x with hx | ⟨u, hu, hE⟩
      · exact .inl hx
      · rcases (mem_iff_self_or_other ht).1 hu with rfl | hu
        · exact .inr (.inl hE)
        · exact .inr (.inr ⟨u, hu, hE⟩)
    rcases hstep p i t k x hreach ht hmay hk hbefore with hx | hx | ⟨u, hu, hx⟩
    · exact .inl hx
    · exact .inr ⟨_, List.mem_set (List.getElem?_eq_some_iff.1 ht).1 _, hx⟩
    · exact .inr ⟨u, other_stepAt ht k hu, hx⟩

/-- A thread on its own, one step after the other. -/
def solo (P : Prog σ τ κ) (ks : List κ) (x : τ × σ) : τ × σ := ks.foldl (fun x k => P.step k x.1 x.2) x

theorem solo_append (ks ks' : List κ) (x : τ × σ) : P.solo (ks ++ ks') x = P.solo ks' (P.solo ks x) := by
  simp [solo, List.foldl_append]

end Prog

end FloodEws
