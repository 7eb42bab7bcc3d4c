import Mathlib.Data.List.Chain
import ShmActors.Artifact.Manifest

/-! The walk along the predecessor links, `walk_chain_newest_first` and
`walk_chain_with` of `shm-artifact/src/manifest.rs`, whatever the links lead to:
it ends after `depth` reads, and what it returns is a whole chain. -/

namespace ShmActors.Artifact

open Lib Program

/-- What the closure `read_prev` captures, and how often it has been called. -/
structure Reads (Own : Type) where
  own : Own
  count : Nat

def Reads.start {Own : Type} (own : Own) : Reads Own := ⟨own, 0⟩

/-- `read_prev`: a closure with a state of its own. -/
def reading {Own : Type} (read : Own → ManifestLink → Except Error Manifest × Own) (link : ManifestLink) :
    Program (Reads Own) Unit (Except Error Manifest) :=
  .act () (fun reads => ⟨(read reads.own link).2, reads.count + 1⟩) fun reads => .ret (read reads.own link).1

/-- A `read_prev` that captures nothing. -/
def pureRead (read : ManifestLink → Except Error Manifest) (_ : Unit) (link : ManifestLink) :
    Except Error Manifest × Unit := (read link, ())

section

/-- What is checked of every manifest of the chain. -/
def Manifest.FitsIn (head cur : Manifest) : Prop :=
  cur.batchSpans.length < 2 ^ 32 ∧ cur.batchSpans.length ≤ cur.totalBatches ∧
    cur.artifactId = head.artifactId ∧ cur.schemaId = head.schemaId

def Manifest.IsRoot (cur : Manifest) : Prop :=
  cur.prev = none ∧ cur.depth = 0 ∧ cur.totalBatches = cur.batchSpans.length

/-- The link is consistent with the manifest that carries it. -/
def Manifest.Links (cur : Manifest) (link : ManifestLink) : Prop :=
  cur.prev = some link ∧ link.version < cur.version ∧ cur.depth = link.depth + 1 ∧
    cur.totalBatches = link.totalBatches + cur.batchSpans.length

/-- The manifest is the one the link names. -/
abbrev Manifest.Answers (prev : Manifest) (link : ManifestLink) : Prop :=
  prev.version = link.version ∧ prev.depth = link.depth ∧ prev.totalBatches = link.totalBatches

end

section

variable {Own Acc : Type} {head cur : Manifest} {left : Nat} {chain : List Manifest}
  {read : Own → ManifestLink → Except Error Manifest × Own}

/-- A round of the loop goes through: at the root, `head.depth` hops in, or at a
link before that. -/
def Manifest.Passes (head cur : Manifest) (left : Nat) : Prop :=
  head.FitsIn cur ∧ (cur.IsRoot ∧ left = 0 ∨ ∃ link, cur.Links link ∧ left ≠ 0)

theorem alone_walkFrom_failed (fails : ¬head.Passes cur left) :
    (walkFrom head (reading read) stop left acc cur chain).alone reads = some (.error .versionGone, reads) := by
  unfold walkFrom
  split
  · rfl
  split
  · rfl
  rename_i whole same
  have fits : head.FitsIn cur := ⟨by omega, by omega, by tauto⟩
  cases prev : cur.prev with
  | none =>
    by_cases root : cur.depth = 0 ∧ left = 0 ∧ cur.totalBatches = cur.batchSpans.length
    · exact absurd ⟨fits, .inl ⟨⟨prev, root.1, root.2.2⟩, root.2.1⟩⟩ fails
    · rw [if_pos (by omega)]
      rfl
  | some link =>
    cases left with
    | zero => rfl
    | succ left =>
      dsimp only
      by_cases deep : cur.depth = 0
      · rw [if_pos deep]
        rfl
      · rw [if_neg deep, if_pos]
        · rfl
        · by_contra linked
          exact fails ⟨fits, .inr ⟨link, ⟨prev, by omega, by omega, by have := fits.2.1; omega⟩, by omega⟩⟩

theorem alone_walkFrom_root (fits : head.FitsIn cur) (root : cur.IsRoot) :
    (walkFrom head (reading read) stop 0 acc cur chain).alone reads = some (.ok (chain ++ [cur]), reads) := by
  obtain ⟨prev, depth, total⟩ := root
  unfold walkFrom
  rw [if_neg (by have := fits.1; have := fits.2.1; omega), if_neg (by have := fits.2.2; tauto), prev]
  exact congrArg (alone · reads) (if_neg (by omega))

/-- At a link, the walk stops or reads on. -/
theorem alone_walkFrom_link (fits : head.FitsIn cur) (links : cur.Links link) :
    (walkFrom head (reading read) stop (left + 1) acc cur chain).alone reads =
      if (stop acc cur).2 then some (.ok (chain ++ [cur]), reads) else match read reads.own link with
        | (.error reason, own) => some (.error reason, ⟨own, reads.count + 1⟩) | (.ok prev, own) =>
          if prev.Answers link then
            (walkFrom head (reading read) stop left (stop acc cur).1 prev (chain ++ [cur])).alone
              ⟨own, reads.count + 1⟩ else some (.error .versionGone, ⟨own, reads.count + 1⟩) := by
  obtain ⟨prev, older, depth, total⟩ := links
  conv_lhs => unfold walkFrom
  rw [if_neg (by have := fits.1; have := fits.2.1; omega), if_neg (by have := fits.2.2; tauto), prev]
  dsimp only
  rw [if_neg (by omega), if_neg (by omega)]
  split
  · rfl
  have once : (reading read link).alone reads =
      some ((read reads.own link).1, ⟨(read reads.own link).2, reads.count + 1⟩) := rfl
  rw [alone_bind, once]
  obtain ⟨out, own⟩ := read reads.own link
  cases out with
  | error reason => rfl
  | ok got =>
    by_cases answers : got.Answers link
    · simp only [if_pos answers, Option.bind_some]
      rw [if_neg (by unfold Manifest.Answers at answers; omega)]
    · simp only [if_neg answers, Option.bind_some]
      rw [if_pos (by unfold Manifest.Answers at answers; omega)]
      rfl

end

section

variable {Own Acc : Type} {head : Manifest} {cur : Manifest} {chain res : List Manifest}

/-- The walk ends, after as many reads as there were hops left at most. -/
theorem walkFrom_ends (read : Own → ManifestLink → Except Error Manifest × Own)
    (stop : Acc → Manifest → Acc × Bool) (left : Nat) (acc : Acc) (cur : Manifest) (chain : List Manifest)
    (reads : Reads Own) :
    ∃ out new, (walkFrom head (reading read) stop left acc cur chain).alone reads = some (out, new) ∧
      new.count ≤ reads.count + left := by
  induction left generalizing acc cur chain reads with
  | zero =>
    by_cases passes : head.Passes cur 0
    · obtain ⟨fits, ⟨root, -⟩ | ⟨_, -, wrong⟩⟩ := passes
      · exact ⟨_, _, alone_walkFrom_root fits root, le_rfl⟩
      · exact absurd rfl wrong
    · exact ⟨_, _, alone_walkFrom_failed passes, le_rfl⟩
  | succ left ih =>
    by_cases passes : head.Passes cur (left + 1)
    · obtain ⟨fits, ⟨-, wrong⟩ | ⟨link, links, -⟩⟩ := passes
      · cases wrong
      rw [alone_walkFrom_link fits links]
      split
      · exact ⟨_, _, rfl, Nat.le_add_right ..⟩
      split
      · exact ⟨_, _, rfl, by simp only; omega⟩
      split
      · obtain ⟨out, new, ended, few⟩ := ih _ _ _ _
        exact ⟨out, new, ended, by simp only at few; omega⟩
      · exact ⟨_, _, rfl, by simp only; omega⟩
    · exact ⟨_, _, alone_walkFrom_failed passes, Nat.le_add_right ..⟩

/-- A whole chain, newest first: `hops` links lead from its first manifest to a root. -/
inductive Trail (head : Manifest) : Nat → List Manifest → Prop where
  | root {cur : Manifest} (fits : head.FitsIn cur) (root : cur.IsRoot) : Trail head 0 [cur]
  | link {hops : Nat} {cur prev : Manifest} {rest : List Manifest} {link : ManifestLink} (fits : head.FitsIn cur)
      (links : cur.Links link) (answers : prev.Answers link) (later : Trail head hops (prev :: rest)) :
      Trail head (hops + 1) (cur :: prev :: rest)

/-- A walk that is never stopped returns a whole chain. -/
theorem trail_of_walkFrom {read : Own → ManifestLink → Except Error Manifest × Own}
    (walked : (walkFrom head (reading read) (fun _ _ => ((), false)) left () cur chain).alone reads =
      some (.ok res, new)) : ∃ rest, res = chain ++ cur :: rest ∧ Trail head left (cur :: rest) := by
  induction left generalizing cur chain reads with
  | zero =>
    by_cases passes : head.Passes cur 0
    · obtain ⟨fits, ⟨root, -⟩ | ⟨_, -, wrong⟩⟩ := passes
      · rw [alone_walkFrom_root fits root] at walked
        cases walked
        exact ⟨[], rfl, .root fits root⟩
      · exact absurd rfl wrong
    · rw [alone_walkFrom_failed passes] at walked
      cases walked
  | succ left ih =>
    by_cases passes : head.Passes cur (left + 1)
    · obtain ⟨fits, ⟨-, wrong⟩ | ⟨link, links, -⟩⟩ := passes
      · cases wrong
      rw [alone_walkFrom_link fits links, if_neg Bool.false_ne_true] at walked
      split at walked
      · cases walked
      split at walked
      · rename_i prev _ _ answers
        obtain ⟨rest, whole, trail⟩ := ih walked
        exact ⟨prev :: rest, by simpa using whole, .link fits links answers trail⟩
      · cases walked
    · rw [alone_walkFrom_failed passes] at walked
      cases walked

/-- Where the whole walk succeeds, every shorter one does, with a part of the chain. -/
theorem stopped_of_walkFrom {read : ManifestLink → Except Error Manifest}
    (stop : Acc → Manifest → Acc × Bool) (acc : Acc)
    (walked : (walkFrom head (reading (pureRead read)) (fun _ _ => ((), false)) left () cur chain).alone reads =
      some (.ok res, new)) :
    ∃ shorter sooner, (walkFrom head (reading (pureRead read)) stop left acc cur chain).alone reads =
      some (.ok shorter, sooner) ∧ shorter <+: res := by
  obtain ⟨rest, whole, -⟩ := trail_of_walkFrom walked
  have here : chain ++ [cur] <+: res := ⟨rest, by simp [whole]⟩
  induction left generalizing acc cur chain reads rest with
  | zero =>
    by_cases passes : head.Passes cur 0
    · obtain ⟨fits, ⟨root, -⟩ | ⟨_, -, wrong⟩⟩ := passes
      · exact ⟨_, _, alone_walkFrom_root fits root, here⟩
      · exact absurd rfl wrong
    · rw [alone_walkFrom_failed passes] at walked
      cases walked
  | succ left ih =>
    by_cases passes : head.Passes cur (left + 1)
    · obtain ⟨fits, ⟨-, wrong⟩ | ⟨link, links, -⟩⟩ := passes
      · cases wrong
      rw [alone_walkFrom_link fits links, if_neg Bool.false_ne_true] at walked
      rw [alone_walkFrom_link fits links]
      split
      · exact ⟨_, _, rfl, here⟩
      simp only [pureRead] at walked ⊢
      cases got : read link with
      | error reason =>
        rw [got] at walked
        cases walked
      | ok prev =>
        rw [got] at walked
        dsimp only at walked ⊢
        split at walked
        · rename_i answers
          rw [if_pos answers]
          obtain ⟨rest, whole, -⟩ := trail_of_walkFrom walked
          exact ih _ walked rest whole ⟨rest, by simp [whole]⟩
        · cases walked
    · rw [alone_walkFrom_failed passes] at walked
      cases walked

end

section

variable {chain rest : List Manifest}

namespace Trail

variable (trail : Trail head hops chain)

include trail

theorem length : chain.length = hops + 1 := by
  induction trail with
  | root => rfl
  | link _ _ _ _ ih => simpa using ih

theorem fits : ∀ manifest ∈ chain, head.FitsIn manifest := by
  induction trail with
  | root fits => simpa using fits
  | link fits _ _ _ ih => exact List.forall_mem_cons.mpr ⟨fits, ih⟩

theorem decreasing : chain.Pairwise fun newer older => older.version < newer.version := by
  rw [← List.isChain_iff_pairwise]
  induction trail with
  | root => exact .singleton _
  | link _ links answers _ ih => exact .cons_cons (by rw [answers.1]; exact links.2.1) ih

theorem ends : ∃ root, chain.getLast? = some root ∧ root.IsRoot := by
  induction trail with
  | root _ root => exact ⟨_, rfl, root⟩
  | link _ _ _ _ ih => simpa using ih

omit trail

theorem total (trail : Trail head hops (cur :: rest)) :
    ((cur :: rest).map fun manifest => manifest.batchSpans.length).sum = cur.totalBatches := by
  generalize whole : cur :: rest = chain at trail
  induction trail generalizing cur rest with
  | root _ root =>
    cases whole
    simp [root.2.2]
  | link _ links answers _ ih =>
    cases whole
    rw [List.map_cons, List.sum_cons, ih rfl, answers.2.2, links.2.2.2, Nat.add_comm]

end Trail

end

/-- A walk along any links ends after `head.depth` reads at most. A full walk
returns the whole chain, oldest first; and where the full walk with a pure read
function succeeds, one that is stopped early returns the newest part of it. -/
theorem walk_sound (head : Manifest) :
    (∀ {Own Acc : Type} (read : Own → ManifestLink → Except Error Manifest × Own)
      (stop : Acc → Manifest → Acc × Bool) (acc : Acc) (own : Own),
      ∃ outcome after, (walkChainNewestFirst head (reading read) stop acc).alone (.start own) =
        some (outcome, after) ∧ after.count ≤ head.depth) ∧
    (∀ {Own : Type} (read : Own → ManifestLink → Except Error Manifest × Own) (own : Own),
      ∃ outcome after, (walkChainWith head (reading read)).alone (.start own) = some (outcome, after) ∧
        after.count ≤ head.depth ∧ ∀ chain, outcome = .ok chain →
          chain.length = head.depth + 1 ∧ (chain.Pairwise fun older newer => older.version < newer.version) ∧
          (∀ manifest ∈ chain, manifest.artifactId = head.artifactId ∧ manifest.schemaId = head.schemaId) ∧
          (∃ root, chain.head? = some root ∧ root.IsRoot) ∧ chain.getLast? = some head ∧
          (chain.map fun manifest => manifest.batchSpans.length).sum = head.totalBatches) ∧
    ∀ (read : ManifestLink → Except Error Manifest) chain after,
      (walkChainNewestFirst head (reading (pureRead read)) (fun _ _ => ((), false)) ()).alone (.start ()) =
        some (.ok chain, after) →
      ∀ {Acc : Type} (stop : Acc → Manifest → Acc × Bool) (acc : Acc), ∃ shorter sooner,
        (walkChainNewestFirst head (reading (pureRead read)) stop acc).alone (.start ()) =
          some (.ok shorter, sooner) ∧ shorter <+: chain := by
  refine ⟨fun read stop acc own => ?_, fun read own => ?_, fun read chain after walked _ stop acc =>
    stopped_of_walkFrom stop acc walked⟩
  · obtain ⟨outcome, after, ended, few⟩ := walkFrom_ends read stop head.depth acc head [] (.start own)
    exact ⟨outcome, after, ended, by simpa [Reads.start] using few⟩
  · obtain ⟨outcome, after, ended, few⟩ :=
      walkFrom_ends read (fun _ _ => ((), false)) head.depth () head [] (.start own)
    have walked : (walkChainWith head (reading read)).alone (.start own) =
        some (outcome.map List.reverse, after) := by
      unfold walkChainWith walkChainNewestFirst
      rw [alone_bind, ended]
      cases outcome <;> rfl
    refine ⟨_, after, walked, by simpa [Reads.start] using few, fun chain ok => ?_⟩
    cases outcome with
    | error reason => cases ok
    | ok newest =>
      cases ok
      obtain ⟨rest, rfl, trail⟩ := trail_of_walkFrom ended
      rw [List.nil_append]
      refine ⟨by rw [List.length_reverse, trail.length], List.pairwise_reverse.mpr trail.decreasing,
        fun manifest member => ?_, ?_, by simp, ?_⟩
      · exact (trail.fits manifest (List.mem_reverse.mp member)).2.2
      · rw [List.head?_reverse]
        exact trail.ends
      · rw [List.map_reverse, List.sum_reverse]
        exact trail.total

end ShmActors.Artifact
