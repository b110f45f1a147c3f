import Mathlib.Data.Fintype.EquivFin
import Mathlib.Data.Fintype.Sets
import Mathlib.Data.List.Chain
import WhileLang.Proofs.Frame

/-! Only loops can run forever, as long as no binding leads back to its own name. The size
of an expression is no measure of what is left to do, because a variable makes way for
a binding of any size. What goes down is the place of the variables in the order in
which bindings read each other; there are finitely many bindings, so without a cycle
this order is well founded. Assignments only bind literals, which read nothing, and so
they cannot close a cycle. -/

namespace WhileLang

namespace Env

variable {env env' : Env} {xs : List Ident}

/-- No chain of names, in which each one is read by the binding of the one before it, comes to a name twice. -/
def Acyclic (env : Env) : Prop := ∀ chain : List Ident, chain.IsChain env.Reads → chain.Nodup

theorem Framed.acyclic (hf : Framed xs env env') (h : env.Acyclic) : env'.Acyclic :=
  fun chain hchain => h chain (hchain.imp fun _ _ => hf.reads)

/-- To rule out cycles it is enough to number the names so that bindings read lower ones. -/
theorem acyclic_of_rank (rank : Ident → Nat) (h : ∀ x y, env.Reads x y → rank y < rank x) : env.Acyclic := by
  intro chain hchain
  have hdown : (chain.map rank).IsChain (· > ·) := List.isChain_map_of_isChain rank h hchain
  exact hdown.pairwise.nodup.of_map

theorem Acyclic.not_transGen (h : env.Acyclic) (x : Ident) : ¬ Relation.TransGen env.Reads x x := by
  intro hcycle
  obtain ⟨y, hxy, hyx⟩ := Relation.TransGen.head'_iff.1 hcycle
  obtain ⟨l, hl, hlast⟩ := List.exists_isChain_cons_of_relationReflTransGen hyx
  have hnodup : (x :: y :: l).Nodup := h _ (List.isChain_cons_cons.2 ⟨hxy, hl⟩)
  have hx : x ∈ y :: l := hlast ▸ List.getLast_mem _
  exact (List.nodup_cons.1 hnodup).1 hx

theorem mem_names_of_reads {x y : Ident} (h : env.Reads x y) : x ∈ env.entries.map Prod.fst := by
  obtain ⟨e, he, -⟩ := h
  obtain ⟨before, behind, hsplit, -⟩ := List.lookup_eq_some_iff.1 he
  rw [hsplit]
  simp

theorem Acyclic.wellFounded (h : env.Acyclic) : WellFounded fun y x => env.Reads x y := by
  let names := env.entries.map Prod.fst
  -- there are finitely many bound names, and none of them leads back to itself
  let Below (a b : {x // x ∈ names}) : Prop := Relation.TransGen env.Reads b.1 a.1
  have hdown : WellFounded Below := by
    have : IsTrans _ Below := ⟨fun _ _ _ hab hbc => hbc.trans hab⟩
    have : Std.Irrefl Below := ⟨fun a => h.not_transGen a.1⟩
    exact Finite.wellFounded_of_trans_of_irrefl Below
  have hunbound : ∀ x, x ∉ names → Acc (fun y x => env.Reads x y) x :=
    fun x hx => ⟨x, fun y hy => absurd (mem_names_of_reads hy) hx⟩
  have hbound : ∀ a : {x // x ∈ names}, Acc (fun y x => env.Reads x y) a.1 := by
    intro a
    induction a using hdown.induction with
    | h a ih =>
      refine ⟨a.1, fun y hy => ?_⟩
      by_cases hmem : y ∈ names
      · exact ih ⟨y, hmem⟩ (.single hy)
      · exact hunbound y hmem
  refine ⟨fun x => ?_⟩
  by_cases hmem : x ∈ names
  · exact hbound ⟨x, hmem⟩
  · exact hunbound x hmem

/-- In the order of reading every variable comes to an end, and with its variables every expression. -/
theorem Acyclic.evaluates (h : env.Acyclic) (e : Expr) : ∃ w n, e.Evaluates env w n := by
  have hvar : ∀ x, ∃ w n, (Expr.var x).Evaluates env w n := by
    intro x
    induction x using h.wellFounded.induction with
    | h x ih =>
      cases hx : env.lookup x with
      | error f => exact ⟨.error f, 0, .unbound hx⟩
      | ok b =>
        have hb : ∃ w n, b.Evaluates env w n :=
          Expr.evaluates_of_vars fun y hy => ih y ⟨b, Env.lookup_eq_ok hx, hy⟩
        obtain ⟨w, n, hn⟩ := hb
        exact ⟨w, n + 1, .var hx hn⟩
  exact Expr.evaluates_of_vars fun x _ => hvar x

end Env

def Stmt.loopFree : Stmt → Bool
  | skip => true
  | assign _ _ => true
  | ite _ t f => t.loopFree && f.loopFree
  | seq a b => a.loopFree && b.loopFree
  | loop _ _ => false

theorem Env.Acyclic.executes {env : Env} {s : Stmt} (h : env.Acyclic) (hs : s.loopFree = true) :
    ∃ o n, s.Executes env o n := by
  induction s generalizing env with
  | skip => exact ⟨_, 0, .skip env⟩
  | assign x e =>
    obtain ⟨f | v, n, he⟩ := h.evaluates e
    · exact ⟨_, n, .assignFault he⟩
    · exact ⟨_, n + 1, .assign he⟩
  | ite c t f iht ihf =>
    obtain ⟨ht, hf⟩ := Bool.and_eq_true_iff.1 hs
    obtain ⟨g | b, m, hc⟩ := Expr.tests_of_evaluates (h.evaluates c)
    · exact ⟨_, m, .iteFault hc⟩
    · have hbranch : ∃ o n, (if b then t else f).Executes env o n := by
        cases b
        · exact ihf h hf
        · exact iht h ht
      obtain ⟨o, n, hn⟩ := hbranch
      exact ⟨o, m + 1 + n, .ite hc hn⟩
  | seq a b iha ihb =>
    obtain ⟨ha, hb⟩ := Bool.and_eq_true_iff.1 hs
    obtain ⟨⟨g | _, env'⟩, m, hm⟩ := iha h ha
    · exact ⟨_, m, .seqFault hm⟩
    · -- the second part starts from what the first one has left
      obtain ⟨o, n, hn⟩ := ihb (hm.framed.acyclic h) hb
      exact ⟨o, m + 1 + n, .seq hm hn⟩
  | loop c body _ => cases hs

namespace Machine

variable {ν : Type} [Node ν] {m : Machine ν} {o : Outcome ν} {n : Nat}

/-- Where the reductions end, so does a run, into whatever sink and under whatever limit. -/
theorem run_of_ends [AtomicNode ν] (h : Ends n m.env m.node o) (sink : Sink) : ∃ r, m.run (n + 1) sink = some r := by
  cases hrun : m.run (n + 1) sink with
  | some r => exact ⟨r, rfl⟩
  | none =>
    obtain ⟨m', -, hm, -⟩ := run_rest hrun
    have hle : n + 1 ≤ n := h.le (after_iff.1 hm).1
    omega

end Machine

/-- From bindings without a cycle every expression ends, every statement leaves bindings without a cycle, and every
statement without a loop ends. -/
theorem acyclic_programs_end (env : Env) (h : env.Acyclic) :
    (∀ e : Expr, (∃ fuel w, e.eval fuel env = some w) ∧
      ∀ sink, ∃ fuel r, (Machine.start e env ⟨none⟩).run fuel sink = some r) ∧
    (∀ s : Stmt, (s.step env).env.Acyclic ∧ ∀ fuel o, s.exec fuel env = some o → o.env.Acyclic) ∧
    ∀ s : Stmt, s.loopFree = true → (∃ fuel o, s.exec fuel env = some o) ∧
      ∀ sink, ∃ fuel r, (Machine.start s env ⟨none⟩).run fuel sink = some r := by
  refine ⟨fun e => ?_, fun s => ?_, fun s hs => ?_⟩
  · obtain ⟨w, n, hn⟩ := h.evaluates e
    obtain ⟨fuel, hf⟩ := hn.eval
    refine ⟨⟨fuel, w, hf⟩, fun sink => ⟨n + 1, ?_⟩⟩
    exact Machine.run_of_ends (m := .start e env ⟨none⟩) hn.ends sink
  · exact ⟨(s.step_framed env).acyclic h, fun fuel o ho => (Stmt.exec_framed ho).acyclic h⟩
  · obtain ⟨o, n, hn⟩ := h.executes hs
    obtain ⟨fuel, hf⟩ := hn.exec
    refine ⟨⟨fuel, o, hf⟩, fun sink => ⟨n + 1, ?_⟩⟩
    exact Machine.run_of_ends (m := .start s env ⟨none⟩) hn.ends sink

/-- The binding of `x` reads that of `y`, which is then assigned to. -/
theorem chained_bindings_end :
    let next : Stmt := .assign "y" (.binary .mul (.var "x") (.var "y"))
    let s : Stmt := .seq next (.ite (.binary .lt (.var "x") (.var "y")) (.assign "z" (.var "x")) .skip)
    let sum : Env := Dict.empty.insert "x" (.binary .add (.var "y") (.var "y"))
    let env : Env := sum.insert "y" (.binary .mul (.lit (.num 2)) (.lit (.num 3)))
    let env' : Env := sum.insert "y" (.lit (.num 72))
    env.Acyclic ∧ (next.exec 9 env = some ⟨.ok (), env'⟩ ∧ env'.Acyclic) ∧
      s.loopFree = true ∧ (∃ fuel o, s.exec fuel env = some o) ∧
      ∃ fuel r, (Machine.start s env ⟨none⟩).run fuel .unbounded = some r := by
  intro next s sum env env'
  have hacyclic : env.Acyclic := by
    refine Env.acyclic_of_rank (fun x => if x = "x" then 1 else 0) ?_
    rintro x y ⟨e, he, hy⟩
    rw [Dict.get?_insert, Dict.get?_insert] at he
    split at he
    · cases he
      simp [Expr.vars] at hy
    · split at he
      · next hx =>
        cases he
        obtain rfl : y = "y" := by simpa [Expr.vars] using hy
        simp [hx]
      · cases he
  obtain ⟨-, hkept, hends⟩ := acyclic_programs_end env hacyclic
  have hexec : next.exec 9 env = some ⟨.ok (), env'⟩ := rfl
  exact ⟨hacyclic, ⟨hexec, (hkept next).2 9 _ hexec⟩, rfl, (hends s rfl).1, (hends s rfl).2 .unbounded⟩

end WhileLang
