import Mathlib.Data.Finset.Basic
import Mathlib.Data.Finset.Card
import Mathlib.Tactic

/-!
# The first answer in a graph

A query either answers or passes on to other queries, in order. The graph may have
cycles. `Reaches` says that a query has an answer at all: the least relation in which an
answer reaches and a query reaches when one it passes on to does. `Answers` says which
answer comes first when a query that is already on the way is no way to an answer.

`search` is the depth-first search that marks what it has visited, by a key of the
query. When the queries it meets have distinct keys, it finds the first answer: a query
it has left without an answer leads on only to visited ones, so skipping it later hides
nothing.
-/

namespace Tolkara

structure AnswerGraph (ν α : Type*) where
  answer : ν → Option α
  next : ν → List ν

namespace AnswerGraph

variable {ν κ α : Type*} (G : AnswerGraph ν α)

inductive Reaches : ν → Prop
  | found {q : ν} {a : α} : G.answer q = some a → Reaches q
  | through {q t : ν} : G.answer q = none → t ∈ G.next q → Reaches t → Reaches q

/-- The query has an answer on a way that avoids the queries passed. -/
inductive Leads : List ν → ν → Prop
  | found {passed : List ν} {q : ν} {a : α} :
      q ∉ passed → G.answer q = some a → Leads passed q
  | through {passed : List ν} {q t : ν} : q ∉ passed → G.answer q = none → t ∈ G.next q →
      Leads (q :: passed) t → Leads passed q

/-- The first answer of the query on a way that avoids the queries passed: its own, or
that of the first one it passes on to that has one. -/
inductive Answers : List ν → ν → α → Prop
  | found {passed : List ν} {q : ν} {a : α} :
      q ∉ passed → G.answer q = some a → Answers passed q a
  | first {passed before after : List ν} {q t : ν} {a : α} : q ∉ passed → G.answer q = none →
      G.next q = before ++ t :: after → (∀ p ∈ before, ¬ Leads G (q :: passed) p) →
      Answers (q :: passed) t a → Answers passed q a

/-- The first answer of the query when "the first one that has an answer" is read without
regard to the way: defined where no cycle comes first. -/
inductive AnswersFirst : ν → α → Prop
  | found {q : ν} {a : α} : G.answer q = some a → AnswersFirst q a
  | first {before after : List ν} {q t : ν} {a : α} : G.answer q = none →
      G.next q = before ++ t :: after → (∀ p ∈ before, ¬ Reaches G p) →
      AnswersFirst t a → AnswersFirst q a

/-- The queries that come up, each with those on the way to it, when the roots are asked
in order until one has an answer. -/
inductive Met (roots : List ν) : List ν → ν → Prop
  | root {before after : List ν} {q : ν} : roots = before ++ q :: after →
      (∀ p ∈ before, ¬ Leads G [] p) → Met roots [] q
  | next {passed before after : List ν} {q t : ν} : Met roots passed q → q ∉ passed →
      G.answer q = none → G.next q = before ++ t :: after →
      (∀ p ∈ before, ¬ Leads G (q :: passed) p) → Met roots (q :: passed) t

def FirstAnswer (roots : List ν) (a : α) : Prop :=
  ∃ before q after, roots = before ++ q :: after ∧ (∀ p ∈ before, ¬ G.Leads [] p) ∧
    G.Answers [] q a

variable {G}

theorem Leads.reaches {passed : List ν} {q : ν} (h : G.Leads passed q) : G.Reaches q := by
  induction h with
  | found hq ha => exact .found ha
  | through hq ha ht hlead ih => exact .through ha ht ih

theorem Answers.leads {passed : List ν} {q : ν} {a : α} (h : G.Answers passed q a) :
    G.Leads passed q := by
  induction h with
  | found hq ha => exact .found hq ha
  | first hq ha hnext hbefore hanswer ih =>
      refine .through hq ha ?_ ih
      rw [hnext]
      exact List.mem_append_right _ List.mem_cons_self

/-- An answer that is at most `n` steps away. -/
inductive ReachesIn (G : AnswerGraph ν α) : ℕ → ν → Prop
  | found {n : ℕ} {q : ν} {a : α} : G.answer q = some a → ReachesIn G n q
  | through {n : ℕ} {q t : ν} : G.answer q = none → t ∈ G.next q → ReachesIn G n t →
      ReachesIn G (n + 1) q

theorem ReachesIn.succ {n : ℕ} {q : ν} (h : G.ReachesIn n q) : G.ReachesIn (n + 1) q := by
  induction h with
  | found ha => exact .found ha
  | through ha ht hreach ih => exact .through ha ht ih

theorem ReachesIn.mono {m n : ℕ} {q : ν} (h : G.ReachesIn m q) (hle : m ≤ n) :
    G.ReachesIn n q := by
  induction hle with
  | refl => exact h
  | step _ ih => exact ih.succ

theorem Reaches.exists_reachesIn {q : ν} (h : G.Reaches q) : ∃ n, G.ReachesIn n q := by
  induction h with
  | found ha => exact ⟨0, .found ha⟩
  | through ha ht hreach ih =>
      obtain ⟨n, hn⟩ := ih
      exact ⟨n + 1, .through ha ht hn⟩

/-- A shortest way to an answer avoids everything that is further away. -/
theorem ReachesIn.leads {n : ℕ} {q : ν} (h : G.ReachesIn n q)
    (hshortest : ∀ m < n, ¬ G.ReachesIn m q) {passed : List ν}
    (hpassed : ∀ p ∈ passed, ¬ G.ReachesIn n p) : G.Leads passed q := by
  induction n generalizing q passed with
  | zero =>
      have hq : q ∉ passed := fun hmem => hpassed q hmem h
      cases h with
      | found ha => exact .found hq ha
  | succ n ih =>
      have hq : q ∉ passed := fun hmem => hpassed q hmem h
      cases h with
      | found ha => exact .found hq ha
      | through ha ht hreach =>
          refine .through hq ha ht (ih hreach ?_ ?_)
          · intro m hm hnear
            exact hshortest (m + 1) (by omega) (.through ha ht hnear)
          · intro p hp hnear
            rcases List.mem_cons.mp hp with rfl | hmem
            · exact hshortest n (by omega) hnear
            · exact hpassed p hmem hnear.succ

/-- Without anything passed, cycles hide no answer. -/
theorem leads_nil_iff {q : ν} : G.Leads [] q ↔ G.Reaches q := by
  classical
  refine ⟨Leads.reaches, fun h => ?_⟩
  have hex := h.exists_reachesIn
  exact (Nat.find_spec hex).leads (fun m hm => Nat.find_min hex hm)
    (fun p hp => absurd hp List.not_mem_nil)

/-- The first element with a property is the same in every way to cut a list at it. -/
theorem first_unique {P : ν → Prop} {before before' after after' : List ν} {t t' : ν}
    (heq : before ++ t :: after = before' ++ t' :: after') (hbefore : ∀ p ∈ before, ¬ P p)
    (ht : P t) (hbefore' : ∀ p ∈ before', ¬ P p) (ht' : P t') : t = t' := by
  induction before generalizing before' with
  | nil =>
      cases before' with
      | nil => exact (List.cons.inj heq).1
      | cons p rest =>
          obtain ⟨rfl, -⟩ := List.cons.inj heq
          exact absurd ht (hbefore' t List.mem_cons_self)
  | cons p rest ih =>
      cases before' with
      | nil =>
          obtain ⟨rfl, -⟩ := List.cons.inj heq
          exact absurd ht' (hbefore p List.mem_cons_self)
      | cons p' rest' =>
          exact ih (List.cons.inj heq).2 (fun x hx => hbefore x (List.mem_cons_of_mem _ hx))
            (fun x hx => hbefore' x (List.mem_cons_of_mem _ hx))

theorem Answers.unique {passed : List ν} {q : ν} {a b : α} (h : G.Answers passed q a)
    (h' : G.Answers passed q b) : a = b := by
  induction h with
  | found hq ha =>
      cases h' with
      | found _ hb => exact Option.some.inj (ha.symm.trans hb)
      | first _ hb => exact absurd (ha.symm.trans hb) (by simp)
  | first hq ha hnext hbefore hanswer ih =>
      cases h' with
      | found _ hb => exact absurd (ha.symm.trans hb) (by simp)
      | first _ hb hnext' hbefore' hanswer' =>
          obtain rfl := first_unique (hnext.symm.trans hnext') hbefore hanswer.leads hbefore'
            hanswer'.leads
          exact ih hanswer'

theorem firstAnswer_singleton {q : ν} {a : α} : G.FirstAnswer [q] a ↔ G.Answers [] q a := by
  constructor
  · rintro ⟨before, p, after, hcut, -, hanswer⟩
    cases before with
    | nil => exact (List.cons.inj hcut).1 ▸ hanswer
    | cons p' before => exact absurd (List.cons.inj hcut).2.symm (by simp)
  · exact fun h => ⟨[], q, [], rfl, fun _ hp => absurd hp List.not_mem_nil, h⟩

theorem FirstAnswer.unique {roots : List ν} {a b : α} (h : G.FirstAnswer roots a)
    (h' : G.FirstAnswer roots b) : a = b := by
  obtain ⟨before, q, after, hroots, hbefore, hanswer⟩ := h
  obtain ⟨before', q', after', hroots', hbefore', hanswer'⟩ := h'
  obtain rfl := first_unique (hroots.symm.trans hroots') hbefore hanswer.leads hbefore'
    hanswer'.leads
  exact hanswer.unique hanswer'

theorem AnswersFirst.reaches {q : ν} {a : α} (h : G.AnswersFirst q a) : G.Reaches q := by
  induction h with
  | found ha => exact .found ha
  | first ha hnext hbefore hanswer ih =>
      refine .through ha ?_ ih
      rw [hnext]
      exact List.mem_append_right _ List.mem_cons_self

/-- How many steps an answer without regard to the way takes. -/
inductive AnswersFirstIn (G : AnswerGraph ν α) : ℕ → ν → α → Prop
  | found {q : ν} {a : α} : G.answer q = some a → AnswersFirstIn G 0 q a
  | first {n : ℕ} {before after : List ν} {q t : ν} {a : α} : G.answer q = none →
      G.next q = before ++ t :: after → (∀ p ∈ before, ¬ Reaches G p) →
      AnswersFirstIn G n t a → AnswersFirstIn G (n + 1) q a

theorem AnswersFirst.exists_steps {q : ν} {a : α} (h : G.AnswersFirst q a) :
    ∃ n, G.AnswersFirstIn n q a := by
  induction h with
  | found ha => exact ⟨0, .found ha⟩
  | first ha hnext hbefore hanswer ih =>
      obtain ⟨n, hn⟩ := ih
      exact ⟨n + 1, .first ha hnext hbefore hn⟩

theorem AnswersFirstIn.reaches {n : ℕ} {q : ν} {a : α} (h : G.AnswersFirstIn n q a) :
    G.Reaches q := by
  induction h with
  | found ha => exact .found ha
  | first ha hnext hbefore hanswer ih =>
      refine .through ha ?_ ih
      rw [hnext]
      exact List.mem_append_right _ List.mem_cons_self

theorem AnswersFirstIn.steps_unique {m n : ℕ} {q : ν} {a b : α} (h : G.AnswersFirstIn m q a)
    (h' : G.AnswersFirstIn n q b) : m = n := by
  induction h generalizing n with
  | found ha =>
      cases h' with
      | found _ => rfl
      | first hb => exact absurd (ha.symm.trans hb) (by simp)
  | first ha hnext hbefore hanswer ih =>
      cases h' with
      | found hb => exact absurd (ha.symm.trans hb) (by simp)
      | first hb hnext' hbefore' hanswer' =>
          obtain rfl := first_unique (hnext.symm.trans hnext') hbefore hanswer.reaches hbefore'
            hanswer'.reaches
          rw [ih hanswer']

/-- The two readings agree where the second is defined: its way never comes back. -/
theorem AnswersFirstIn.answers {n : ℕ} {q : ν} {a : α} (h : G.AnswersFirstIn n q a)
    {passed : List ν} (hpassed : ∀ p ∈ passed, ∀ m b, G.AnswersFirstIn m p b → n < m) :
    G.Answers passed q a := by
  induction h generalizing passed with
  | found ha =>
      refine .found (fun hmem => ?_) ha
      exact absurd (hpassed _ hmem _ _ (.found ha)) (lt_irrefl _)
  | @first n before after q t a ha hnext hbefore hanswer ih =>
      have hself : G.AnswersFirstIn (n + 1) q a := .first ha hnext hbefore hanswer
      refine .first (fun hmem => ?_) ha hnext (fun p hp hlead => hbefore p hp hlead.reaches)
        (ih ?_)
      · exact absurd (hpassed _ hmem _ _ hself) (lt_irrefl _)
      · intro p hp m b hm
        rcases List.mem_cons.mp hp with rfl | hmem
        · rw [hm.steps_unique hself]
          omega
        · have := hpassed p hmem m b hm
          omega

theorem AnswersFirst.answers {q : ν} {a : α} (h : G.AnswersFirst q a) : G.Answers [] q a := by
  obtain ⟨n, hn⟩ := h.exists_steps
  exact hn.answers (fun p hp => absurd hp List.not_mem_nil)

/-- Asks the queries of a list in turn, until one answers. -/
def searchAll (ask : List κ → ν → Option α × List κ) : List ν → List κ → Option α × List κ
  | [], visited => (none, visited)
  | q :: rest, visited =>
    match ask visited q with
    | (some a, visited') => (some a, visited')
    | (none, visited') => searchAll ask rest visited'

theorem searchAll_singleton (ask : List κ → ν → Option α × List κ) (q : ν) (visited : List κ) :
    (searchAll ask [q] visited).1 = (ask visited q).1 := by
  rw [searchAll]
  cases hask : ask visited q with
  | mk answer visited' =>
      cases answer with
      | some a => rfl
      | none => rfl

section Search

variable [DecidableEq κ] (key : ν → κ)

variable (G) in
/-- The depth-first search from a query. What it visits is marked by key, and a marked
query is not asked again. -/
def search : ℕ → List κ → ν → Option α × List κ
  | 0, visited, _ => (none, visited)
  | fuel + 1, visited, q =>
    if key q ∈ visited then (none, visited)
    else
      match G.answer q with
      | some a => (some a, key q :: visited)
      | none => searchAll (search fuel) (G.next q) (key q :: visited)

variable (G) in
/-- No two queries that come up share a key. -/
def SingleKeyed (roots : List ν) : Prop :=
  ∀ passed q passed' q', G.Met roots passed q → G.Met roots passed' q' → key q = key q' → q = q'

/-- The queries that come up are among those that lead on only to one another and contain
the roots up to one that has an answer. -/
theorem Met.mem {roots nodes before after : List ν} {r : ν} (hroots : roots = before ++ r :: after)
    (hr : G.Leads [] r) (hstart : ∀ p ∈ before ++ [r], p ∈ nodes)
    (hclosed : ∀ p ∈ nodes, G.answer p = none → ∀ t ∈ G.next p, t ∈ nodes) {passed : List ν}
    {q : ν} (h : G.Met roots passed q) : q ∈ nodes := by
  induction h with
  | @root before' after' q hcut hbefore =>
      rw [hcut] at hroots
      rcases List.append_eq_append_iff.1 hroots with ⟨l, hl, hq⟩ | ⟨l, hl, hr'⟩
      · refine hstart q ?_
        rw [hl]
        cases l with
        | nil =>
            rw [List.nil_append] at hq
            rw [(List.cons.inj hq).1]
            simp
        | cons p l =>
            rw [(List.cons.inj hq).1]
            simp
      · cases l with
        | nil =>
            rw [List.nil_append] at hr'
            exact hstart q (by rw [← (List.cons.inj hr').1]; simp)
        | cons p l =>
            refine absurd hr (hbefore r ?_)
            rw [hl, (List.cons.inj hr').1]
            simp
  | next _ _ ha hnext _ ih =>
      refine hclosed _ ih ha _ ?_
      rw [hnext]
      exact List.mem_append_right _ List.mem_cons_self

/-- The state of the search with the queries `passed` on the way: `nodes` are those
visited, and the ones it has left answer nothing and lead on only to visited ones. -/
structure Explored (G : AnswerGraph ν α) (roots passed nodes : List ν) : Prop where
  passed_mem : ∀ p ∈ passed, p ∈ nodes
  met : ∀ q ∈ nodes, ∃ way, G.Met roots way q
  left : ∀ q ∈ nodes, q ∉ passed → G.answer q = none ∧ ∀ t ∈ G.next q, t ∈ nodes

/-- A visited query leads to no answer off the way. -/
theorem not_leads {passed nodes : List ν}
    (hleft : ∀ q ∈ nodes, q ∉ passed → G.answer q = none ∧ ∀ t ∈ G.next q, t ∈ nodes) {q : ν}
    (hq : q ∈ nodes) : ¬ G.Leads passed q := by
  intro hlead
  induction hlead with
  | found hpassed ha => exact absurd ((hleft _ hq hpassed).1.symm.trans ha) (by simp)
  | through hpassed ha ht hlead ih =>
      refine ih (fun p hp hoff => hleft p hp ?_) ((hleft _ hq hpassed).2 _ ht)
      exact fun hmem => hoff (List.mem_cons_of_mem _ hmem)

variable {key} {roots : List ν}

omit [DecidableEq κ] in
/-- Queries that come up share no key when no two of the ones they are among do. -/
theorem SingleKeyed.of_nodes (nodes before after : List ν) {r : ν}
    (hkeys : (nodes.map key).Nodup) (hroots : roots = before ++ r :: after)
    (hr : G.Leads [] r) (hstart : ∀ p ∈ before ++ [r], p ∈ nodes)
    (hclosed : ∀ p ∈ nodes, G.answer p = none → ∀ t ∈ G.next p, t ∈ nodes) :
    G.SingleKeyed key roots := fun _ _ _ _ hq hq' hkey =>
  List.inj_on_of_nodup_map hkeys (hq.mem hroots hr hstart hclosed)
    (hq'.mem hroots hr hstart hclosed) hkey

/-- The keys of a finite set that are not marked yet. -/
def unmarked (key : ν → κ) (keys : Finset κ) (nodes : List ν) : Finset κ :=
  keys \ (nodes.map key).toFinset

theorem unmarked_mono {keys : Finset κ} {nodes nodes' : List ν} (h : ∀ q ∈ nodes, q ∈ nodes') :
    (unmarked key keys nodes').card ≤ (unmarked key keys nodes).card := by
  refine Finset.card_le_card (Finset.sdiff_subset_sdiff subset_rfl ?_)
  intro k hk
  rw [List.mem_toFinset, List.mem_map] at hk ⊢
  obtain ⟨q, hq, rfl⟩ := hk
  exact ⟨q, h q hq, rfl⟩

theorem unmarked_cons {keys : Finset κ} {nodes : List ν} {q : ν} (hkey : key q ∈ keys)
    (hq : key q ∉ nodes.map key) :
    (unmarked key keys (q :: nodes)).card < (unmarked key keys nodes).card := by
  refine Finset.card_lt_card (Finset.ssubset_iff_of_subset ?_ |>.mpr ⟨key q, ?_, ?_⟩)
  · refine Finset.sdiff_subset_sdiff subset_rfl ?_
    intro k hk
    rw [List.mem_toFinset] at hk ⊢
    rw [List.map_cons]
    exact List.mem_cons_of_mem _ hk
  · rw [unmarked, Finset.mem_sdiff, List.mem_toFinset]
    exact ⟨hkey, hq⟩
  · rw [unmarked, Finset.mem_sdiff, List.mem_toFinset, List.map_cons]
    exact fun h => h.2 List.mem_cons_self

variable (G key roots) in
/-- What a search that asks with `passed` on the way does: it visits the query and leaves
it without an answer, or it finds the first answer. -/
def Finds (passed nodes : List ν) (q : ν) (result : Option α × List κ) : Prop :=
  (∃ nodes', result = (none, nodes'.map key) ∧ (∀ p ∈ nodes, p ∈ nodes') ∧ q ∈ nodes' ∧
    Explored G roots passed nodes') ∨
  ∃ a visited, result = (some a, visited) ∧ G.Answers passed q a

/-- The queries of a list, asked in turn. The ones already asked are visited, and so have
no answer off the way. -/
theorem searchAll_finds {ask : List κ → ν → Option α × List κ} {keys : Finset κ} {fuel : ℕ}
    {passed : List ν}
    (hask : ∀ nodes q, Explored G roots passed nodes → G.Met roots passed q →
      (unmarked key keys nodes).card < fuel →
      Finds G key roots passed nodes q (ask (nodes.map key) q))
    {all : List ν}
    (hmet : ∀ before t after, all = before ++ t :: after →
      (∀ p ∈ before, ¬ G.Leads passed p) → G.Met roots passed t)
    (rest asked : List ν) (hall : all = asked ++ rest) {nodes : List ν}
    (hexplored : Explored G roots passed nodes) (hasked : ∀ p ∈ asked, p ∈ nodes)
    (hfuel : (unmarked key keys nodes).card < fuel) :
    (∃ nodes', searchAll ask rest (nodes.map key) = (none, nodes'.map key) ∧
      (∀ p ∈ nodes, p ∈ nodes') ∧ (∀ t ∈ all, t ∈ nodes') ∧ Explored G roots passed nodes') ∨
    ∃ a visited before t after, searchAll ask rest (nodes.map key) = (some a, visited) ∧
      all = before ++ t :: after ∧ (∀ p ∈ before, ¬ G.Leads passed p) ∧ G.Answers passed t a := by
  induction rest generalizing asked nodes with
  | nil =>
      rw [List.append_nil] at hall
      exact .inl ⟨nodes, rfl, fun _ hp => hp, fun t ht => hasked t (hall ▸ ht), hexplored⟩
  | cons q rest ih =>
      have hbefore : ∀ p ∈ asked, ¬ G.Leads passed p :=
        fun p hp => not_leads hexplored.left (hasked p hp)
      have hq := hmet asked q rest hall hbefore
      rcases hask nodes q hexplored hq hfuel with
        ⟨nodes', hresult, hsub, hvisited, hexplored'⟩ | ⟨a, visited, hresult, hanswer⟩
      · have hnext := ih (asked ++ [q]) (by rw [hall, List.append_assoc]; rfl) hexplored'
          (by
            intro p hp
            rcases List.mem_append.mp hp with hmem | hmem
            · exact hsub p (hasked p hmem)
            · rw [List.mem_singleton.mp hmem]
              exact hvisited)
          (lt_of_le_of_lt (unmarked_mono hsub) hfuel)
        have hstep : searchAll ask (q :: rest) (nodes.map key) =
            searchAll ask rest (nodes'.map key) := by
          rw [searchAll, hresult]
        rw [hstep]
        rcases hnext with ⟨nodes'', hrest, hsub', hmem, hend⟩ | hfound
        · exact .inl ⟨nodes'', hrest, fun p hp => hsub' p (hsub p hp), hmem, hend⟩
        · exact .inr hfound
      · refine .inr ⟨a, visited, asked, q, rest, ?_, hall, hbefore, hanswer⟩
        rw [searchAll, hresult]

/-- The search finds the first answer off the way. The induction is on the fuel, which
the unmarked keys bound. -/
theorem search_finds (hsingle : G.SingleKeyed key roots) {keys : Finset κ}
    (hkeys : ∀ passed q, G.Met roots passed q → key q ∈ keys) (fuel : ℕ)
    {passed nodes : List ν} {q : ν} (hexplored : Explored G roots passed nodes)
    (hmet : G.Met roots passed q) (hfuel : (unmarked key keys nodes).card < fuel) :
    Finds G key roots passed nodes q (G.search key fuel (nodes.map key) q) := by
  induction fuel generalizing passed nodes q with
  | zero => exact absurd hfuel (Nat.not_lt_zero _)
  | succ fuel ih =>
      rw [search]
      by_cases hmarked : key q ∈ nodes.map key
      · rw [if_pos hmarked]
        obtain ⟨p, hp, hkey⟩ := List.mem_map.mp hmarked
        obtain ⟨way, hway⟩ := hexplored.met p hp
        obtain rfl := hsingle way p passed q hway hmet hkey
        exact .inl ⟨nodes, rfl, fun _ h => h, hp, hexplored⟩
      · rw [if_neg hmarked]
        have hnew : q ∉ nodes := fun hmem => hmarked (List.mem_map_of_mem hmem)
        have hpassed : q ∉ passed := fun hmem => hnew (hexplored.passed_mem q hmem)
        cases ha : G.answer q with
        | some a => exact .inr ⟨a, _, rfl, .found hpassed ha⟩
        | none =>
            have hdown : Explored G roots (q :: passed) (q :: nodes) := by
              refine ⟨?_, ?_, ?_⟩
              · intro p hp
                rcases List.mem_cons.mp hp with rfl | hmem
                · exact List.mem_cons_self
                · exact List.mem_cons_of_mem _ (hexplored.passed_mem p hmem)
              · intro p hp
                rcases List.mem_cons.mp hp with rfl | hmem
                · exact ⟨passed, hmet⟩
                · exact hexplored.met p hmem
              · intro p hp hoff
                rw [List.mem_cons, not_or] at hoff
                have hmem := (List.mem_cons.mp hp).resolve_left hoff.1
                obtain ⟨hnone, hnext⟩ := hexplored.left p hmem hoff.2
                exact ⟨hnone, fun t ht => List.mem_cons_of_mem _ (hnext t ht)⟩
            have hless := unmarked_cons (hkeys passed q hmet) hmarked
            have hall := searchAll_finds (fun nodes t => ih) (fun before t after hcut hbefore =>
              hmet.next hpassed ha hcut hbefore) (G.next q) [] rfl hdown
              (fun _ hp => absurd hp List.not_mem_nil) (by omega)
            rcases hall with ⟨nodes', hresult, hsub, hmem, hup⟩ |
              ⟨a, visited, before, t, after, hresult, hcut, hbefore, hanswer⟩
            · refine .inl ⟨nodes', hresult, fun p hp => hsub p (List.mem_cons_of_mem _ hp),
                hsub q List.mem_cons_self, ?_, hup.met, ?_⟩
              · exact fun p hp => hup.passed_mem p (List.mem_cons_of_mem _ hp)
              · -- The query itself is left now.
                intro p hp hoff
                by_cases hself : p = q
                · rw [hself]
                  exact ⟨ha, hmem⟩
                · exact hup.left p hp (by simp [hself, hoff])
            · exact .inr ⟨a, visited, hresult, .first hpassed ha hcut hbefore hanswer⟩

theorem searchAll_roots (hsingle : G.SingleKeyed key roots) {keys : Finset κ}
    (hkeys : ∀ passed q, G.Met roots passed q → key q ∈ keys) {fuel : ℕ}
    (hfuel : keys.card < fuel) :
    ((searchAll (G.search key fuel) roots []).1 = none ∧ ∀ q ∈ roots, ¬ G.Reaches q) ∨
    ∃ a, (searchAll (G.search key fuel) roots []).1 = some a ∧ G.FirstAnswer roots a := by
  have hstart : Explored G roots [] [] :=
    ⟨fun _ h => absurd h List.not_mem_nil, fun _ h => absurd h List.not_mem_nil,
      fun _ h => absurd h List.not_mem_nil⟩
  have hfuel' : (unmarked key keys []).card < fuel := by
    simpa [unmarked] using hfuel
  have hall := searchAll_finds (fun nodes q => search_finds hsingle hkeys fuel)
    (fun before t after hcut hbefore => Met.root hcut hbefore) roots [] rfl hstart
    (fun _ h => absurd h List.not_mem_nil) hfuel'
  rw [List.map_nil] at hall
  rcases hall with ⟨nodes', hresult, -, hmem, hend⟩ |
    ⟨a, visited, before, t, after, hresult, hcut, hbefore, hanswer⟩
  · refine .inl ⟨by rw [hresult], fun q hq hreach => ?_⟩
    exact not_leads hend.left (hmem q hq) (leads_nil_iff.mpr hreach)
  · exact .inr ⟨a, by rw [hresult], before, t, after, hcut, hbefore, hanswer⟩

theorem FirstAnswer.exists_reaches {a : α} (h : G.FirstAnswer roots a) :
    ∃ q ∈ roots, G.Reaches q := by
  obtain ⟨before, q, after, hcut, -, hanswer⟩ := h
  refine ⟨q, ?_, hanswer.leads.reaches⟩
  rw [hcut]
  exact List.mem_append_right _ List.mem_cons_self

/-- **The search of the roots** gives the answer of the first one that has one. -/
theorem searchAll_eq_some_iff (hsingle : G.SingleKeyed key roots) {keys : Finset κ}
    (hkeys : ∀ passed q, G.Met roots passed q → key q ∈ keys) {fuel : ℕ}
    (hfuel : keys.card < fuel) (a : α) :
    (searchAll (G.search key fuel) roots []).1 = some a ↔ G.FirstAnswer roots a := by
  rcases searchAll_roots hsingle hkeys hfuel with ⟨hnone, hroots⟩ | ⟨b, hsome, hfirst⟩
  · rw [hnone]
    refine ⟨fun h => (by cases h), fun h => ?_⟩
    obtain ⟨q, hq, hreach⟩ := h.exists_reaches
    exact absurd hreach (hroots q hq)
  · rw [hsome]
    constructor
    · intro h
      cases h
      exact hfirst
    · intro h
      rw [h.unique hfirst]

/-- The search of the roots gives an answer when one of them has one at all. -/
theorem searchAll_isSome_iff (hsingle : G.SingleKeyed key roots) {keys : Finset κ}
    (hkeys : ∀ passed q, G.Met roots passed q → key q ∈ keys) {fuel : ℕ}
    (hfuel : keys.card < fuel) :
    (searchAll (G.search key fuel) roots []).1.isSome = true ↔ ∃ q ∈ roots, G.Reaches q := by
  rcases searchAll_roots hsingle hkeys hfuel with ⟨hnone, hroots⟩ | ⟨b, hsome, hfirst⟩
  · rw [hnone]
    refine ⟨fun h => (by cases h), fun ⟨q, hq, hreach⟩ => ?_⟩
    exact absurd hreach (hroots q hq)
  · rw [hsome]
    exact ⟨fun _ => hfirst.exists_reaches, fun _ => rfl⟩

end Search

end AnswerGraph

end Tolkara
