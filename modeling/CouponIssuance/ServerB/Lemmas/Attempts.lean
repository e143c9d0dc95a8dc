import CouponIssuance.ServerB.Lemmas.Counter
import CouponIssuance.ServerB.Lemmas.Entries
import CouponIssuance.ServerB.Lemmas.Mark

/-!
This module contains the invariant behind the cap on republishing: which stage of its visit the pair
is in, and what counter, history and hash belong to this stage.
-/

namespace ServerB

open Concurrency Redis.Server

namespace SweepPc

def ahead : SweepPc → List Pair
  | hgetall userId couponTypeId _ members result =>
    result.map (·.pair) ++ (userId, couponTypeId) :: members.filterMap parseMember
  | zrem _ members result => result.map (·.pair) ++ members.filterMap parseMember
  | lookup _ stale | markResult _ _ stale | recordRepublish _ _ stale
  | publishForScheduler _ stale => stale.map (·.pair)
  | _ => []

def entries : SweepPc → List PendingIssue
  | hgetall _ _ _ _ result | zrem _ _ result => result
  | lookup pending stale => pending :: stale
  | markResult _ _ stale | recordRepublish _ _ stale | publishForScheduler _ stale => stale
  | _ => []

end SweepPc

inductive Stage where
  | free
  | visiting
  | republishing (pc : RepublishPc)
  | publishing
  | marking (pc : MarkPc)
  /-- It has been given up. -/
  | concluded
deriving DecidableEq

namespace Stage

def rests : Stage → Bool
  | free | concluded => true
  | _ => false

end Stage

def SweepPc.stage (p : Pair) : SweepPc → Stage
  | lookup pending _ => if pending.pair = p then .visiting else .free
  | markResult mark _ _ => if mark.pair = p then .marking mark.pc else .free
  | recordRepublish _ republish _ =>
    if republish.pair = p then .republishing republish.pc else .free
  | publishForScheduler payload _ =>
    if (payload.userId, payload.couponTypeId) = p then .publishing else .free
  | _ => .free

structure Recorded (value : Nat → JsNumber) (p : Pair) (base : Nat) (history : List Event)
    (visits publishes : Nat) : Prop where
  base_le : base ≤ history.length
  visits : visitsOf p (history.drop base) = (List.range visits).map value
  publishes : publishesOf p (history.drop base) ≤ publishes

structure Counting (total : Nat) (value : Nat → JsNumber) (p : Pair) (redis : Redis) (k : Nat)
    : Prop where
  le : k ≤ total
  entry : redis.get p.hashKey .requestId = none
    ∨ Readable redis p (value k) ∧ (k < total → CountedExactly redis p (value k))

def Stage.Holds (total : Nat) (value : Nat → JsNumber) (p : Pair) (base : Nat) (σ : Shared) (k : Nat)
    : Stage → Prop
  | free => Recorded value p base σ.history k k ∧ Counting total value p σ.redis k
  | visiting => Recorded value p base σ.history (k + 1) k ∧ Counting total value p σ.redis k
  | republishing pc =>
    k < total ∧ Recorded value p base σ.history (k + 1) k
      ∧ Counting total value p σ.redis (if pc = .hincrby then k else k + 1)
  | publishing =>
    k < total ∧ Recorded value p base σ.history (k + 1) (k + 1)
      ∧ Counting total value p σ.redis (k + 1)
  | marking pc =>
    k = total ∧ Recorded value p base σ.history (k + 1) k
      ∧ (pc ≠ .hsetStatus → MarkedFailed σ.redis p)
  | concluded => k = total ∧ Recorded value p base σ.history (k + 1) k ∧ GivenUp σ.redis p

structure Mark.GivesUp (m : Mark) : Prop where
  status : m.status = .failed
  code : m.code = none
  pc : ∀ code, m.pc ≠ .hsetCode code

structure SweepPc.Fits (p : Pair) (attempts : JsNumber) (stage : Stage) (pc : SweepPc) : Prop where
  inStage : pc.stage p = if stage = .concluded then .free else stage
  ahead : pc.ahead.count p ≤ if stage = .free then 1 else 0
  entries : ∀ e ∈ pc.entries, e.pair = p → e.publishAttempts = attempts
  givesUp : ∀ mark gaveUp stale, pc = .markResult mark gaveUp stale → mark.pair = p
    → mark.GivesUp
  pair : ∀ pending republish stale, pc = .recordRepublish pending republish stale
    → republish.pair = pending.pair

def Call.Fits (p : Pair) (attempts : JsNumber) (stage : Stage) (c : Call) : Prop :=
  match c with
  | .sweep s => s.pc.isRunning = true → s.pc.Fits p attempts stage
  | c => c.concerns p = false

structure Tracked (total : Nat) (value : Nat → JsNumber) (p : Pair) (base : Nat) (stage : Stage)
    (k : Nat) (s : State) : Prop where
  holds : stage.Holds total value p base s.shared k
  sole : Sole s.shared.redis p
  calls : ∀ c ∈ s.calls, c.Fits p (value k) stage
  rests : stage.rests = true ∨ ∃ c ∈ s.calls, c.isSweeping = true

section Record

variable {value : Nat → JsNumber} {p : Pair} {base visits publishes : Nat}
variable {history : List Event}

theorem Recorded.append (h : Recorded value p base history visits publishes) {events : List Event}
    (hvisits : visitsOf p events = []) (hpublishes : publishesOf p events = 0)
    : Recorded value p base (history ++ events) visits publishes := by
  refine ⟨?_, ?_, ?_⟩
  . rw [List.length_append]
    exact Nat.le_add_right_of_le h.base_le
  . rw [List.drop_append_of_le_length h.base_le, visitsOf, List.filterMap_append]
    exact (congrArg₂ _ h.visits hvisits).trans (List.append_nil _)
  . rw [List.drop_append_of_le_length h.base_le, publishesOf, List.countP_append]
    exact (congrArg₂ _ rfl hpublishes).trans_le h.publishes

theorem Recorded.visit (h : Recorded value p base history visits publishes) {e : PendingIssue}
    (hpair : e.pair = p) (hattempts : e.publishAttempts = value visits)
    : Recorded value p base (history ++ [.visited e]) (visits + 1) publishes := by
  refine ⟨?_, ?_, ?_⟩
  . rw [List.length_append]
    exact Nat.le_add_right_of_le h.base_le
  . rw [List.drop_append_of_le_length h.base_le, visitsOf, List.filterMap_append,
      List.range_succ, List.map_append]
    refine congrArg₂ _ h.visits ?_
    simp [hpair, hattempts]
  . rw [List.drop_append_of_le_length h.base_le, publishesOf, List.countP_append]
    exact h.publishes

theorem Recorded.publish (h : Recorded value p base history visits publishes)
    (payload : CouponIssueRequestPayload)
    : Recorded value p base (history ++ [.publishedForScheduler payload]) visits (publishes + 1) := by
  refine ⟨?_, ?_, ?_⟩
  . rw [List.length_append]
    exact Nat.le_add_right_of_le h.base_le
  . rw [List.drop_append_of_le_length h.base_le, visitsOf, List.filterMap_append]
    exact (congrArg₂ _ h.visits rfl).trans (List.append_nil _)
  . rw [List.drop_append_of_le_length h.base_le, publishesOf, List.countP_append]
    exact Nat.add_le_add h.publishes List.countP_le_length

end Record

section Holding

variable {total : Nat} {value : Nat → JsNumber} {p : Pair} {base k : Nat} {stage : Stage}
variable {σ σ' : Shared}

theorem Counting.of_same {redis redis' : Redis} (h : Counting total value p redis k)
    (hsame : SamePair p redis redis')
    : Counting total value p redis' k where
  le := h.le
  entry := by
    unfold CountedExactly
    rw [hsame.get, hsame.get]
    exact h.entry.imp_right (And.imp_left (·.of_same hsame))

theorem GivenUp.of_same {redis redis' : Redis} (h : GivenUp redis p)
    (hsame : SamePair p redis redis')
    : GivenUp redis' p := by
  constructor
  . exact h.marked.of_same hsame
  . exact hsame.score h.unlisted

theorem Stage.Holds.of_same (h : stage.Holds total value p base σ k) {events : List Event}
    (hsame : SamePair p σ.redis σ'.redis) (hhistory : σ'.history = σ.history ++ events)
    (hvisits : visitsOf p events = []) (hpublishes : publishesOf p events = 0)
    : stage.Holds total value p base σ' k := by
  have hrecorded : ∀ visits publishes, Recorded value p base σ.history visits publishes
      → Recorded value p base σ'.history visits publishes := by
    intro visits publishes h
    rw [hhistory]
    exact h.append hvisits hpublishes
  cases stage with
  | free => exact ⟨hrecorded _ _ h.1, h.2.of_same hsame⟩
  | visiting => exact ⟨hrecorded _ _ h.1, h.2.of_same hsame⟩
  | republishing pc => exact ⟨h.1, hrecorded _ _ h.2.1, h.2.2.of_same hsame⟩
  | publishing => exact ⟨h.1, hrecorded _ _ h.2.1, h.2.2.of_same hsame⟩
  | marking pc =>
    exact ⟨h.1, hrecorded _ _ h.2.1, fun hpc => (h.2.2 hpc).of_same hsame⟩
  | concluded => exact ⟨h.1, hrecorded _ _ h.2.1, h.2.2.of_same hsame⟩

end Holding

def SweepPc.events : SweepPc → List Event
  | lookup pending _ => [.visited pending]
  | publishForScheduler payload _ => [.publishedForScheduler payload]
  | _ => []

theorem Sweep.events_goto (s : Sweep) (pc : SweepPc)
    : (Call.sweep (s.goto pc)).events = pc.events := by
  cases pc <;> rfl

structure Follows (total : Nat) (value : Nat → JsNumber) (p : Pair) (base : Nat) (σ : Shared)
    (pc : SweepPc) (stage : Stage) (k : Nat) : Prop where
  holds : stage.Holds total value p base σ k
  fits : pc.isRunning = true → pc.Fits p (value k) stage
  rests : pc.isRunning = false → stage.rests = true

section Loops

variable {total : Nat} {value : Nat → JsNumber} {p : Pair} {base k : Nat} {stage : Stage}
variable {σ σ' : Shared}

theorem Stage.rests_cases (h : stage.rests = true) : stage = .free ∨ stage = .concluded := by
  cases stage with
  | free => exact Or.inl rfl
  | concluded => exact Or.inr rfl
  | _ => contradiction

structure Pending (p : Pair) (attempts : JsNumber) (stage : Stage) (pairs : List Pair)
    (entries : List PendingIssue) : Prop where
  rests : stage.rests = true
  count : pairs.count p ≤ if stage = .free then 1 else 0
  entries : ∀ e ∈ entries, e.pair = p → e.publishAttempts = attempts

theorem Stage.flow_of_rests (h : stage.rests = true)
    : Stage.free = if stage = .concluded then .free else stage := by
  rcases rests_cases h with rfl | rfl <;> rfl

theorem visitsOf_events {pc : SweepPc} (h : pc.stage p = .free) : visitsOf p pc.events = [] := by
  cases pc with
  | lookup pending stale =>
    dsimp only [SweepPc.stage] at h
    split at h
    . contradiction
    . next hne => simp [SweepPc.events, visitsOf, hne]
  | _ => rfl

theorem publishesOf_events {pc : SweepPc} (h : pc.stage p = .free)
    : publishesOf p pc.events = 0 := by
  cases pc with
  | publishForScheduler payload stale =>
    dsimp only [SweepPc.stage] at h
    split at h
    . contradiction
    . next hne => simp [SweepPc.events, publishesOf, hne]
  | _ => rfl

theorem follows_visit {stale : List PendingIssue} (hholds : stage.Holds total value p base σ k)
    (hpending : Pending p (value k) stage (stale.map (·.pair)) stale)
    (hsame : SamePair p σ.redis σ'.redis)
    (hhistory : σ'.history = σ.history ++ (SweepPc.visit stale).events)
    : ∃ stage', Follows total value p base σ' (.visit stale) stage' k := by
  obtain ⟨hrests, hcount, hentries⟩ := hpending
  cases stale with
  | nil =>
    refine ⟨stage, hholds.of_same hsame hhistory rfl rfl, ?_, fun _ => hrests⟩
    intro hrunning
    contradiction
  | cons e stale =>
    rw [List.map_cons, List.count_cons] at hcount
    by_cases hpair : e.pair = p
    . have hstage : stage = .free := by
        by_contra hne
        rw [if_neg hne] at hcount
        simp [hpair] at hcount
      subst hstage
      have hzero : (stale.map (·.pair)).count p = 0 := by
        simp only [hpair, beq_self_eq_true, ↓reduceIte] at hcount
        omega
      refine ⟨.visiting, ⟨?_, ?_⟩, ?_, ?_⟩
      . rw [hhistory]
        exact hholds.1.visit hpair (hentries e List.mem_cons_self hpair)
      . exact hholds.2.of_same hsame
      . intro _
        refine ⟨?_, ?_, hentries, ?_, ?_⟩
        . simp [SweepPc.visit, SweepPc.stage, hpair]
        . simp [SweepPc.visit, SweepPc.ahead, hzero]
        . intro _ _ _ hpc; contradiction
        . intro _ _ _ hpc; contradiction
      . intro hrunning
        contradiction
    . have hfree : (SweepPc.visit (e :: stale)).stage p = .free := by
        simp [SweepPc.visit, SweepPc.stage, hpair]
      refine ⟨stage, ?_, ?_, fun _ => hrests⟩
      . exact hholds.of_same hsame hhistory (visitsOf_events hfree) (publishesOf_events hfree)
      . intro _
        refine ⟨hfree.trans (Stage.flow_of_rests hrests), ?_, hentries, ?_, ?_⟩
        . exact Nat.le_trans (Nat.le_add_right _ _) hcount
        . intro _ _ _ hpc; contradiction
        . intro _ _ _ hpc; contradiction

theorem follows_scan {members : List String} {result : List PendingIssue}
    (hholds : stage.Holds total value p base σ k)
    (hpending : Pending p (value k) stage
      (result.map (·.pair) ++ members.filterMap parseMember) result)
    (hsame : SamePair p σ.redis σ'.redis)
    (hhistory : σ'.history = σ.history ++ (SweepPc.scan members result).events)
    : ∃ stage', Follows total value p base σ' (.scan members result) stage' k := by
  induction members with
  | nil =>
    rw [List.filterMap_nil, List.append_nil] at hpending
    exact follows_visit hholds hpending hsame hhistory
  | cons member members ih =>
    unfold SweepPc.scan at hhistory ⊢
    rw [List.filterMap_cons] at hpending
    split
    . next userId couponTypeId hparse =>
      rw [hparse] at hpending hhistory
      refine ⟨stage, hholds.of_same hsame hhistory rfl rfl, ?_, fun _ => hpending.rests⟩
      intro _
      refine ⟨Stage.flow_of_rests hpending.rests, hpending.count, hpending.entries, ?_, ?_⟩
      . intro _ _ _ hpc; contradiction
      . intro _ _ _ hpc; contradiction
    . next hparse =>
      rw [hparse] at hpending hhistory
      exact ih hpending hhistory

end Loops

theorem count_range_le {redis : Redis} {p : Pair} (hsole : Sole redis p) (max : Int) (limit : Nat)
    : ((redis.zset.range max limit).filterMap parseMember).count p
        ≤ if (redis.zset.score p.member).isSome then 1 else 0 := by
  have hmono : ((redis.zset.range max limit).filterMap parseMember).count p
      ≤ (redis.zset.range max limit).count p.member := by
    rw [List.count_filterMap]
    apply List.countP_mono_left
    intro member hmem hparse
    obtain ⟨score, hscore, _⟩ := Redis.ZSet.mem_range _ hmem
    rw [beq_iff_eq] at hparse ⊢
    exact hsole member (by rw [hscore]; rfl) hparse
  refine Nat.le_trans hmono ?_
  split
  . exact List.nodup_iff_count_le_one.mp (Redis.ZSet.nodup_range _ _ _) _
  . next hnone =>
    rw [Nat.le_zero, List.count_eq_zero]
    intro hmem
    obtain ⟨score, hscore, _⟩ := Redis.ZSet.mem_range _ hmem
    rw [hscore] at hnone
    exact hnone rfl

section Moves

variable {config : Config} {total : Nat} {value : Nat → JsNumber} {p : Pair} {base k : Nat}
variable {stage : Stage} {σ σ' : Shared} {s : Sweep} {x : Input} {pc : SweepPc}

theorem SweepPc.Fits.rests {attempts : JsNumber} (h : pc.Fits p attempts stage)
    (hfree : pc.stage p = .free)
    : stage.rests = true := by
  have hstage := h.inStage
  rw [hfree] at hstage
  split at hstage
  . next heq => rw [heq]; rfl
  . rw [← hstage]; rfl

theorem follows_end (hholds : stage.Holds total value p base σ k) (hrests : stage.rests = true)
    (hsame : SamePair p σ.redis σ'.redis) (hpc : pc.isRunning = false)
    (hhistory : σ'.history = σ.history ++ pc.events)
    : Follows total value p base σ' pc stage k := by
  have hevents : pc.events = [] := by
    cases pc with
    | finished => rfl
    | crashed => rfl
    | _ => contradiction
  rw [hevents] at hhistory
  refine ⟨hholds.of_same hsame hhistory rfl rfl, ?_, fun _ => hrests⟩
  intro hrunning
  exact absurd (hrunning.symm.trans hpc) (by decide)

theorem samePair_of_zrem {redis redis' : Redis} {member : String}
    (h : redis' = { redis with zset := redis.zset.remove member })
    : SamePair p redis redis' := by
  rw [h]
  refine ⟨fun _ => rfl, fun hnone => ?_⟩
  rw [Redis.ZSet.score_remove]
  split
  . rfl
  . exact hnone

theorem samePair_of_search {command : Command} {reply : Reply}
    (hsearching : s.pc.isSearching = true)
    (hawaits : (Call.sweep s).awaits config = .redis command)
    (hexec : σ.redis.exec command = some (σ'.redis, reply))
    : SamePair p σ.redis σ'.redis := by
  cases hpc : s.pc with
  | zrangebyscore =>
    simp only [Call.awaits, hpc, Await.redis.injEq] at hawaits
    subst hawaits
    exact .of_exec hexec (by simp [Redis.Command.key?]) (by simp [Redis.Command.member?])
  | hgetall userId couponTypeId member members result =>
    simp only [Call.awaits, hpc, Await.redis.injEq] at hawaits
    subst hawaits
    exact .of_exec hexec (by simp [Redis.Command.key?]) (by simp [Redis.Command.member?])
  | zrem member members result =>
    simp only [Call.awaits, hpc, Await.redis.injEq] at hawaits
    subst hawaits
    exact samePair_of_zrem (exec_zrem hexec)
  | _ =>
    rw [hpc] at hsearching
    contradiction

theorem follows_search (hfits : s.pc.Fits p (value k) stage)
    (hholds : stage.Holds total value p base σ k) (hsole : Sole σ.redis p)
    (hsearching : s.pc.isSearching = true) (hmoves : s.Moves config σ σ' x pc)
    (hhistory : σ'.history = σ.history ++ pc.events)
    : ∃ stage', Follows total value p base σ' pc stage' k := by
  have hfree : s.pc.stage p = .free := by
    cases hpc : s.pc <;> first | rfl | (rw [hpc] at hsearching; contradiction)
  have hrests := hfits.rests hfree
  cases hmoves with
  | listed hpc hredis =>
    refine follows_scan hholds ⟨hrests, ?_, ?_⟩ (.of_eq hredis) hhistory
    . refine Nat.le_trans (count_range_le hsole _ _) ?_
      rcases Stage.rests_cases hrests with rfl | rfl
      . split <;> simp
      . rw [if_neg (by rw [hholds.2.2.unlisted]; simp)]
        exact Nat.zero_le _
    . intro e he
      contradiction
  | orphan userId couponTypeId member members result hpc hredis hnone =>
    have hcount := hfits.ahead
    have hentries := hfits.entries
    rw [hpc] at hcount hentries
    refine ⟨stage, hholds.of_same (.of_eq hredis) hhistory rfl rfl, ?_, fun _ => hrests⟩
    intro _
    refine ⟨Stage.flow_of_rests hrests, ?_, hentries, ?_, ?_⟩
    . simp only [SweepPc.ahead, List.count_append, List.count_cons] at hcount ⊢
      omega
    . intro _ _ _ hpc; contradiction
    . intro _ _ _ hpc; contradiction
  | skipped userId couponTypeId member members result hash hpc hredis hhash hread =>
    have hcount := hfits.ahead
    have hentries := hfits.entries
    rw [hpc] at hcount hentries
    refine follows_scan hholds ⟨hrests, ?_, hentries⟩ (.of_eq hredis) hhistory
    simp only [SweepPc.ahead, List.count_append, List.count_cons] at hcount ⊢
    omega
  | read userId couponTypeId member members result hash pending hpc hredis hhash hread =>
    have hcount := hfits.ahead
    have hentries := hfits.entries
    rw [hpc] at hcount hentries
    have hpair := pair_of_readEntry hread
    refine follows_scan hholds ⟨hrests, ?_, ?_⟩ (.of_eq hredis) hhistory
    . simp only [SweepPc.ahead, List.count_append, List.count_cons, List.map_append, List.map_cons,
        List.map_nil, List.count_nil, hpair] at hcount ⊢
      omega
    . intro e he hep
      rcases List.mem_append.mp he with he | he
      . exact hentries e he hep
      . rw [List.mem_singleton] at he
        subst he
        rw [hep] at hpair
        subst hpair
        rcases Stage.rests_cases hrests with rfl | rfl
        . rcases hholds.2.entry with hexpired | ⟨hreadable, _⟩
          . rw [Pair.hashKey, get_of_hashes hhash, requestId_of_readEntry hread] at hexpired
            contradiction
          . obtain ⟨e', hread', hattempts, _⟩ := readEntry_of_readable hhash hreadable
            rw [hread, Option.some.injEq] at hread'
            rw [hread']
            exact hattempts
        . simp [SweepPc.ahead] at hcount
  | removed member members result hpc hredis =>
    have hcount := hfits.ahead
    have hentries := hfits.entries
    rw [hpc] at hcount hentries
    exact follows_scan hholds ⟨hrests, hcount, hentries⟩ (samePair_of_zrem hredis) hhistory
  | abandoned executed hpc hredis =>
    refine ⟨stage, follows_end hholds hrests ?_ rfl hhistory⟩
    rcases hredis with hredis | ⟨command, reply, hawaits, hexec⟩
    . exact .of_eq hredis
    . exact samePair_of_search hsearching hawaits hexec
  | crashed hredis hpc => exact ⟨stage, follows_end hholds hrests (.of_eq hredis) rfl hhistory⟩
  | given x stale hpc _ _ _ => cases hs : s.pc <;> simp_all [SweepPc.isSearching, SweepPc.rest?]
  | _ => simp_all [SweepPc.isSearching]

theorem SweepPc.Fits.pending {attempts : JsNumber} (h : pc.Fits p attempts stage)
    (hrests : stage.rests = true) {stale : List PendingIssue}
    (hahead : pc.ahead = stale.map (·.pair)) (hentries : ∀ e ∈ stale, e ∈ pc.entries)
    : Pending p attempts stage (stale.map (·.pair)) stale where
  rests := hrests
  count := hahead ▸ h.ahead
  entries e he := h.entries e (hentries e he)

theorem fits_aside {attempts : JsNumber} {stale : List PendingIssue}
    (hpending : Pending p attempts stage (stale.map (·.pair)) stale) (hfree : pc.stage p = .free)
    (hahead : pc.ahead = stale.map (·.pair)) (hentries : pc.entries = stale)
    (hpair : ∀ pending republish stale, pc = .recordRepublish pending republish stale
      → republish.pair = pending.pair)
    : pc.Fits p attempts stage where
  inStage := hfree.trans (Stage.flow_of_rests hpending.rests)
  ahead := hahead ▸ hpending.count
  entries := hentries ▸ hpending.entries
  givesUp := by
    rintro mark gaveUp stale rfl hmark
    simp [SweepPc.stage, hmark] at hfree
  pair := hpair

theorem ne_of_lookup {pending : PendingIssue} {stale : List PendingIssue}
    (h : (SweepPc.lookup pending stale).stage p = .free)
    : pending.pair ≠ p := by
  intro heq
  simp [SweepPc.stage, heq] at h

theorem follows_aside {stale : List PendingIssue} (hholds : stage.Holds total value p base σ k)
    (hpending : Pending p (value k) stage (stale.map (·.pair)) stale)
    (hsame : SamePair p σ.redis σ'.redis) (hhistory : σ'.history = σ.history ++ pc.events)
    (hfree : pc.stage p = .free) (hahead : pc.ahead = stale.map (·.pair))
    (hentries : pc.entries = stale)
    (hpair : ∀ pending republish stale, pc = .recordRepublish pending republish stale
      → republish.pair = pending.pair)
    : ∃ stage', Follows total value p base σ' pc stage' k :=
  ⟨stage, hholds.of_same hsame hhistory (visitsOf_events hfree) (publishesOf_events hfree),
    fun _ => fits_aside hpending hfree hahead hentries hpair, fun _ => hpending.rests⟩

theorem Republish.next_spec {r r' : Republish} (h : r.next = some r')
    : r'.pair = r.pair ∧ r'.pc ≠ .hincrby := by
  unfold next at h
  split at h
  . cases h; exact ⟨rfl, by simp⟩
  . cases h; exact ⟨rfl, by simp⟩
  . cases h; exact ⟨rfl, by simp⟩
  . contradiction

theorem SweepPc.rest?_spec {stale : List PendingIssue} (h : pc.rest? = some stale)
    : pc.ahead = stale.map (·.pair) ∧ ∀ e ∈ stale, e ∈ pc.entries := by
  cases pc with
  | lookup pending stale =>
    cases h
    exact ⟨rfl, fun e => List.mem_cons_of_mem _⟩
  | markResult mark gaveUp stale => cases h; exact ⟨rfl, fun _ he => he⟩
  | recordRepublish pending republish stale => cases h; exact ⟨rfl, fun _ he => he⟩
  | _ => contradiction

theorem samePair_of_rest {stale : List PendingIssue} {command : Command} {reply : Reply}
    (hrest : s.pc.rest? = some stale) (hfree : s.pc.stage p = .free)
    (hawaits : (Call.sweep s).awaits config = .redis command)
    (hexec : σ.redis.exec command = some (σ'.redis, reply))
    : SamePair p σ.redis σ'.redis := by
  cases hpc : s.pc with
  | markResult mark gaveUp stale =>
    simp only [Call.awaits, hpc, Await.redis.injEq] at hawaits
    subst hawaits
    refine Mark.samePair ?_ hexec
    intro heq
    simp [hpc, SweepPc.stage, heq] at hfree
  | recordRepublish pending republish stale =>
    simp only [Call.awaits, hpc, Await.redis.injEq] at hawaits
    subst hawaits
    refine Republish.samePair ?_ hexec
    intro heq
    simp [hpc, SweepPc.stage, heq] at hfree
  | lookup pending stale => simp [Call.awaits, hpc] at hawaits
  | _ =>
    rw [hpc] at hrest
    contradiction

theorem follows_other (hfits : s.pc.Fits p (value k) stage)
    (hholds : stage.Holds total value p base σ k) (hsearching : s.pc.isSearching = false)
    (hfree : s.pc.stage p = .free) (hmoves : s.Moves config σ σ' x pc)
    (hhistory : σ'.history = σ.history ++ pc.events)
    : ∃ stage', Follows total value p base σ' pc stage' k := by
  have hrests := hfits.rests hfree
  have hstale : ∀ stale, s.pc.ahead = stale.map (·.pair) → (∀ e ∈ stale, e ∈ s.pc.entries)
      → Pending p (value k) stage (stale.map (·.pair)) stale :=
    fun stale => hfits.pending hrests
  cases hmoves with
  | listed hpc hredis => rw [hpc] at hsearching; contradiction
  | orphan _ _ _ _ _ hpc _ _ => rw [hpc] at hsearching; contradiction
  | skipped _ _ _ _ _ _ hpc _ _ _ => rw [hpc] at hsearching; contradiction
  | read _ _ _ _ _ _ _ hpc _ _ _ => rw [hpc] at hsearching; contradiction
  | removed _ _ _ hpc _ => rw [hpc] at hsearching; contradiction
  | abandoned _ hpc _ => exact absurd (hpc.symm.trans hsearching) (by decide)
  | synced pending stale result hpc hredis =>
    rw [hpc] at hfree hstale
    refine follows_aside hholds (hstale stale rfl fun e => List.mem_cons_of_mem _) (.of_eq hredis)
      hhistory ?_ rfl rfl (by intro _ _ _ h; contradiction)
    exact if_neg (ne_of_lookup hfree)
  | republishes pending stale hpc hredis hlt =>
    rw [hpc] at hfree hstale
    refine follows_aside hholds (hstale stale rfl fun e => List.mem_cons_of_mem _) (.of_eq hredis)
      hhistory ?_ rfl rfl (by rintro _ _ _ ⟨⟩; rfl)
    exact if_neg (ne_of_lookup hfree)
  | givesUp pending stale hpc hredis hlt =>
    rw [hpc] at hfree hstale
    refine follows_aside hholds (hstale stale rfl fun e => List.mem_cons_of_mem _) (.of_eq hredis)
      hhistory ?_ rfl rfl (by intro _ _ _ h; contradiction)
    exact if_neg (ne_of_lookup hfree)
  | marked mark gaveUp stale reply hpc hexec =>
    rw [hpc] at hfree hstale
    -- the mark is of another pair, so that the hash and the member of this one stay
    have hne : mark.pair ≠ p := by
      intro heq
      simp [SweepPc.stage, heq] at hfree
    have hsame := Mark.samePair hne hexec
    have hpending := hstale stale rfl fun e he => he
    unfold Sweep.afterMark at hhistory ⊢
    split
    . next mark' hnext =>
      rw [hnext] at hhistory
      refine follows_aside hholds hpending hsame hhistory ?_ rfl rfl
        (by intro _ _ _ h; contradiction)
      simp [SweepPc.stage, (Mark.next_spec hnext).1, hne]
    . next hnext =>
      rw [hnext] at hhistory
      exact follows_visit hholds hpending hsame hhistory
  | bumped pending republish stale reply hpc hexec =>
    have hpair := hfits.pair _ _ _ hpc
    rw [hpc] at hfree hstale
    have hne : republish.pair ≠ p := by
      intro heq
      simp [SweepPc.stage, heq] at hfree
    have hsame := Republish.samePair hne hexec
    have hpending := hstale stale rfl fun e he => he
    unfold Sweep.afterRepublish at hhistory ⊢
    split
    . next republish' hnext =>
      rw [hnext] at hhistory
      obtain ⟨hpair', _⟩ := Republish.next_spec hnext
      refine follows_aside hholds hpending hsame hhistory ?_ rfl rfl ?_
      . simp [SweepPc.stage, hpair', hne]
      . rintro _ _ _ ⟨⟩
        exact hpair'.trans hpair
    . next hnext =>
      rw [hnext] at hhistory
      split
      . next hcreatedAt =>
        rw [hcreatedAt] at hhistory
        exact follows_visit hholds hpending hsame hhistory
      . next createdAt hcreatedAt =>
        rw [hcreatedAt] at hhistory
        refine follows_aside hholds hpending hsame hhistory ?_ rfl rfl
          (by intro _ _ _ h; contradiction)
        rw [hpair] at hne
        exact if_neg hne
  | published x payload stale hpc hredis =>
    rw [hpc] at hstale
    exact follows_visit hholds (hstale stale rfl fun e he => he) (.of_eq hredis) hhistory
  | given x stale hrest hx hanswer hredis =>
    obtain ⟨hahead, hentries⟩ := SweepPc.rest?_spec hrest
    refine follows_visit hholds (hstale stale hahead hentries) ?_ hhistory
    rcases hredis with hredis | ⟨command, reply, hawaits, hexec⟩
    . exact .of_eq hredis
    . exact samePair_of_rest hrest hfree hawaits hexec
  | crashed hredis hpc => exact ⟨stage, follows_end hholds hrests (.of_eq hredis) rfl hhistory⟩

end Moves

section Work

variable {config : Config} {total : Nat} {value : Nat → JsNumber} {p : Pair} {base k : Nat}
variable {stage : Stage} {σ σ' : Shared} {s : Sweep} {x : Input} {pc : SweepPc}
variable {redis redis' : Redis}

theorem Mark.GivesUp.next {m m' : Mark} (h : m.GivesUp) (hnext : m.next = some m')
    : m'.GivesUp := by
  unfold Mark.next at hnext
  split at hnext
  . split at hnext
    . next code hcode =>
      rw [h.code] at hcode
      contradiction
    . cases hnext
      exact ⟨h.status, h.code, by simp⟩
  . next code hpc => exact absurd hpc (h.pc code)
  . cases hnext
    exact ⟨h.status, h.code, by simp⟩
  . contradiction

theorem Mark.GivesUp.exec {m : Mark} {reply : Reply} (h : m.GivesUp)
    (hmarked : m.pc ≠ .hsetStatus → MarkedFailed redis m.pair)
    (hexec : redis.exec m.command = some (redis', reply))
    : MarkedFailed redis' m.pair := by
  unfold command at hexec
  split at hexec
  . right
    rw [exec_hset hexec, ← h.status]
    exact get_setAll_of_mem _ (by simp) (by simp)
  . next code hpc => exact absurd hpc (h.pc code)
  . next hpc =>
    refine (hmarked (by rw [hpc]; simp)).of_same ⟨fun field => ?_, ?_⟩
    . rw [exec_expire hexec]
      exact get_setTtl ..
    . rw [exec_expire hexec]
      exact id
  . next hpc => exact (hmarked (by rw [hpc]; simp)).of_same (samePair_of_zrem (exec_zrem hexec))

theorem Mark.exec_last {m : Mark} {reply : Reply} (hnext : m.next = none)
    (hexec : redis.exec m.command = some (redis', reply))
    : redis'.zset.score m.pair.member = none := by
  have hpc : m.pc = .zrem := by
    unfold next at hnext
    split at hnext
    . split at hnext <;> contradiction
    . contradiction
    . contradiction
    . assumption
  unfold command at hexec
  rw [hpc] at hexec
  rw [exec_zrem hexec]
  exact (Redis.ZSet.score_remove ..).trans (if_pos rfl)

theorem Republish.exec_get {r : Republish} {reply : Reply} {field : Field}
    (hexec : redis.exec r.command = some (redis', reply)) (hfield : field ≠ .lastPublishedAt)
    (hcounter : field = .publishAttempts → r.pc ≠ .hincrby)
    : redis'.get r.pair.hashKey field = redis.get r.pair.hashKey field := by
  unfold command at hexec
  split at hexec
  . next hpc =>
    obtain ⟨n, _, _, _, heq⟩ := exec_hincrby hexec
    rw [heq]
    refine (get_set ..).trans (if_neg ?_)
    rintro ⟨_, h⟩
    exact hcounter h hpc
  . rw [exec_hset hexec]
    exact get_setAll_of_notMem _ (Or.inr (by simpa using hfield))
  . rw [exec_expire hexec]
    exact get_setTtl ..
  . rw [exec_zadd hexec]
    rfl

theorem Republish.exec_attempts {r : Republish} {reply : Reply} {n : Int}
    (hpc : r.pc = .hincrby) (hexec : redis.exec r.command = some (redis', reply))
    (hn : n.natAbs ≤ 2 ^ 53)
    (hget : redis.get r.pair.hashKey .publishAttempts = some (toString n))
    : redis'.get r.pair.hashKey .publishAttempts = some (toString (n + 1)) := by
  unfold command at hexec
  rw [hpc] at hexec
  obtain ⟨a, hinteger, _, _, heq⟩ := exec_hincrby hexec
  rw [show r.hashKey = r.pair.hashKey from rfl, hget, Option.getD_some,
    Redis.readInteger_toString (by omega) (by omega), Option.some.injEq] at hinteger
  rw [heq, ← hinteger]
  exact (get_set ..).trans (if_pos ⟨rfl, rfl⟩)

theorem Counting.republish {r : Republish} {reply : Reply} (hcounter : Counter m total value)
    (h : Counting total value r.pair redis (if r.pc = .hincrby then k else k + 1)) (hlt : k < total)
    (hexec : redis.exec r.command = some (redis', reply))
    : Counting total value r.pair redis' (k + 1) := by
  have hget (field : Field) (hfield : field ≠ .lastPublishedAt)
      (hcounter : field = .publishAttempts → r.pc ≠ .hincrby)
      : redis'.get r.pair.hashKey field = redis.get r.pair.hashKey field :=
    r.exec_get hexec hfield hcounter
  refine ⟨hlt, ?_⟩
  rcases h.entry with hexpired | ⟨hreadable, hstored⟩
  . left
    rw [hget _ (by simp) (by simp)]
    exact hexpired
  right
  by_cases hpc : r.pc = .hincrby
  . rw [if_pos hpc] at hreadable hstored
    obtain ⟨n, hn, hvalue, hstored⟩ := hstored hlt
    have hattempts := Republish.exec_attempts hpc hexec hn hstored
    obtain ⟨hn', hvalue'⟩ := hcounter.succ k hlt n hn hvalue
    refine ⟨⟨?_, ?_, ?_, ?_, ?_⟩, fun _ => ⟨n + 1, hn', hvalue', hattempts⟩⟩
    . rw [hget _ (by simp) (by simp)]; exact hreadable.requestId
    . rw [hget _ (by simp) (by simp)]; exact hreadable.eventId
    . rw [hget _ (by simp) (by simp)]; exact hreadable.status
    . rw [hget _ (by simp) (by simp)]; exact hreadable.createdAt
    . rw [hattempts, hvalue']
      exact readAttempts_toString (by omega) (by omega)
  . rw [if_neg hpc] at hreadable hstored
    refine ⟨⟨?_, ?_, ?_, ?_, ?_⟩, fun hlt' => ?_⟩
    . rw [hget _ (by simp) (by simp)]; exact hreadable.requestId
    . rw [hget _ (by simp) (by simp)]; exact hreadable.eventId
    . rw [hget _ (by simp) (by simp)]; exact hreadable.status
    . rw [hget _ (by simp) (by simp)]; exact hreadable.createdAt
    . rw [hget _ (by simp) fun _ => hpc]; exact hreadable.attempts
    . unfold CountedExactly
      rw [hget _ (by simp) fun _ => hpc]
      exact hstored hlt'

theorem Recorded.mono {history : List Event} {visits publishes publishes' : Nat}
    (h : Recorded value p base history visits publishes) (hle : publishes ≤ publishes')
    : Recorded value p base history visits publishes' :=
  ⟨h.base_le, h.visits, Nat.le_trans h.publishes hle⟩

theorem SweepPc.Fits.beyond {attempts : JsNumber} (h : s.pc.Fits p attempts stage)
    (stale : List PendingIssue) (hworks : s.pc.stage p ≠ .free)
    (hahead : s.pc.ahead = stale.map (·.pair))
    : stage = s.pc.stage p ∧ (stale.map (·.pair)).count p = 0 := by
  have hstage := h.inStage
  have hcount := h.ahead
  split at hstage
  . contradiction
  . rw [← hstage, if_neg hworks, hahead, Nat.le_zero] at hcount
    exact ⟨hstage.symm, hcount⟩

theorem pending_of_count {attempts : JsNumber} {stale : List PendingIssue}
    (hcount : (stale.map (·.pair)).count p = 0) (hrests : stage.rests = true)
    : Pending p attempts stage (stale.map (·.pair)) stale where
  rests := hrests
  count := by
    rw [hcount]
    exact Nat.zero_le _
  entries e he hep := by
    rw [List.count_eq_zero] at hcount
    exact absurd (List.mem_map.mpr ⟨e, he, hep⟩) hcount

theorem follows_at (stage : Stage) {stale : List PendingIssue} (hstage : pc.stage p = stage)
    (hover : stage ≠ .concluded) (hholds : stage.Holds total value p base σ k)
    (hcount : (stale.map (·.pair)).count p = 0) (hahead : pc.ahead = stale.map (·.pair))
    (hentries : pc.entries = stale) (hrunning : pc.isRunning = true)
    (hgivesUp : ∀ mark gaveUp stale, pc = .markResult mark gaveUp stale → mark.GivesUp)
    (hpair : ∀ pending republish stale, pc = .recordRepublish pending republish stale
      → republish.pair = pending.pair)
    : ∃ stage' k', Follows total value p base σ pc stage' k' := by
  refine ⟨stage, k, hholds, fun _ => ?_, fun h => absurd (hrunning.symm.trans h) (by decide)⟩
  refine ⟨?_, ?_, ?_, fun mark gaveUp stale hpc _ => hgivesUp mark gaveUp stale hpc, hpair⟩
  . rw [hstage, if_neg hover]
  . rw [hahead, hcount]
    exact Nat.zero_le _
  . rw [hentries]
    exact (pending_of_count hcount rfl : Pending p (value k) .concluded _ stale).entries

theorem follows_visiting (hcounter : Counter config.maxPublishAttempts total value)
    (hfits : s.pc.Fits p (value k) stage) (hholds : stage.Holds total value p base σ k)
    {pending : PendingIssue} {stale : List PendingIssue} (hpc : s.pc = .lookup pending stale)
    (hp : pending.pair = p) (hallows : s.pc.allows p σ.redis x = true)
    (hmoves : s.Moves config σ σ' x pc) (hhistory : σ'.history = σ.history ++ pc.events)
    : ∃ stage' k', Follows total value p base σ' pc stage' k' := by
  have hvisiting : s.pc.stage p = .visiting := by
    rw [hpc]
    exact if_pos hp
  obtain ⟨rfl, hcount⟩ := hfits.beyond stale (by simp [hvisiting]) (by rw [hpc]; rfl)
  rw [hvisiting] at hholds
  obtain ⟨hrecorded, hcounting⟩ := hholds
  have hattempts := hfits.entries pending (by rw [hpc]; exact List.mem_cons_self) hp
  have hlt := hcounter.lt k hcounting.le
  rw [← hattempts] at hlt
  have hanswer : x = .answer none := by
    rw [hpc] at hallows
    simp only [SweepPc.allows, hp, bne_self_eq_false, Bool.false_or] at hallows
    split at hallows
    . rfl
    . contradiction
  subst hanswer
  cases hmoves with
  | republishes pending' stale' hpc' hredis hlt' =>
    rw [hpc] at hpc'
    cases hpc'
    have hk : k < total := by
      rw [hlt, decide_eq_true_eq] at hlt'
      exact hlt'
    refine follows_at (k := k) (.republishing .hincrby) (if_pos hp) (by simp) ?_ hcount rfl
      rfl rfl (by intro _ _ _ h; contradiction) (by rintro _ _ _ ⟨⟩; rfl)
    refine ⟨hk, ?_, hcounting.of_same (.of_eq hredis)⟩
    rw [hhistory]
    exact hrecorded.append rfl rfl
  | givesUp pending' stale' hpc' hredis hlt' =>
    rw [hpc] at hpc'
    cases hpc'
    have hk : k = total := by
      rw [hlt, decide_eq_false_iff_not] at hlt'
      have := hcounting.le
      omega
    refine follows_at (k := k) (.marking .hsetStatus) (if_pos hp) (by simp) ?_ hcount rfl
      rfl rfl (by rintro _ _ _ ⟨⟩; exact ⟨rfl, rfl, by simp [markResult]⟩)
      (by intro _ _ _ h; contradiction)
    refine ⟨hk, ?_, fun h => absurd rfl h⟩
    rw [hhistory]
    exact hrecorded.append rfl rfl
  | given x' stale' hrest hx hanswer hredis => exact absurd rfl (hanswer none)
  | published x' payload stale' hpc' hredis => rw [hpc] at hpc'; contradiction

theorem follows_marking (hfits : s.pc.Fits p (value k) stage)
    (hholds : stage.Holds total value p base σ k) {mark : Mark} {gaveUp : Bool}
    {stale : List PendingIssue} (hpc : s.pc = .markResult mark gaveUp stale) (hp : mark.pair = p)
    (hallows : s.pc.allows p σ.redis x = true) (hmoves : s.Moves config σ σ' x pc)
    (hhistory : σ'.history = σ.history ++ pc.events)
    : ∃ stage' k', Follows total value p base σ' pc stage' k' := by
  have hmarking : s.pc.stage p = .marking mark.pc := by
    rw [hpc]
    exact if_pos hp
  obtain ⟨rfl, hcount⟩ := hfits.beyond stale (by simp [hmarking]) (by rw [hpc]; rfl)
  rw [hmarking] at hholds
  obtain ⟨hk, hrecorded, hmarked⟩ := hholds
  have hgivesUp := hfits.givesUp _ _ _ hpc hp
  have hok : x = .ok := by
    rw [hpc] at hallows
    simp only [SweepPc.allows, hp, bne_self_eq_false, Bool.false_or] at hallows
    split at hallows
    . rfl
    . contradiction
  subst hok
  cases hmoves with
  | marked mark' gaveUp' stale' reply hpc' hexec =>
    rw [hpc] at hpc'
    cases hpc'
    have hmarked' : MarkedFailed σ'.redis p := by
      subst hp
      exact hgivesUp.exec hmarked hexec
    unfold Sweep.afterMark at hhistory ⊢
    split
    . next mark' hnext =>
      rw [hnext] at hhistory
      have hpair := (Mark.next_spec hnext).1
      refine follows_at (k := k) (.marking mark'.pc) (if_pos (hpair.trans hp)) (by simp) ?_
        hcount rfl rfl rfl ?_ (by intro _ _ _ h; contradiction)
      . refine ⟨hk, ?_, fun _ => hmarked'⟩
        rw [hhistory]
        exact hrecorded.append rfl rfl
      . rintro _ _ _ ⟨⟩
        exact hgivesUp.next hnext
    . next hnext =>
      rw [hnext] at hhistory
      have hholds : Stage.concluded.Holds total value p base { σ with redis := σ'.redis } k := by
        refine ⟨hk, hrecorded, hmarked', ?_⟩
        rw [← hp]
        exact Mark.exec_last hnext hexec
      have hfollows : ∃ stage', Follows total value p base σ' (.visit stale) stage' k :=
        follows_visit hholds (pending_of_count hcount rfl) (.of_eq rfl) hhistory
      obtain ⟨stage', hfollows⟩ := hfollows
      exact ⟨stage', k, hfollows⟩
  | listed hpc' _ => rw [hpc] at hpc'; contradiction
  | orphan _ _ _ _ _ hpc' _ _ => rw [hpc] at hpc'; contradiction
  | skipped _ _ _ _ _ _ hpc' _ _ _ => rw [hpc] at hpc'; contradiction
  | read _ _ _ _ _ _ _ hpc' _ _ _ => rw [hpc] at hpc'; contradiction
  | removed _ _ _ hpc' _ => rw [hpc] at hpc'; contradiction
  | bumped _ _ _ _ hpc' _ => rw [hpc] at hpc'; contradiction
  | published _ _ _ hpc' _ => rw [hpc] at hpc'; contradiction
  | given x' stale' hrest hx hanswer hredis =>
    obtain ⟨command, hawaits, hnone⟩ := hx rfl
    simp only [Call.awaits, hpc, Await.redis.injEq] at hawaits
    subst hawaits
    obtain ⟨reply, hexec⟩ := mark.exec_command σ.redis
    rw [hnone] at hexec
    contradiction

theorem follows_republishing (hcounter : Counter config.maxPublishAttempts total value)
    (hfits : s.pc.Fits p (value k) stage) (hholds : stage.Holds total value p base σ k)
    {pending : PendingIssue} {republish : Republish} {stale : List PendingIssue}
    (hpc : s.pc = .recordRepublish pending republish stale) (hp : republish.pair = p)
    (hallows : s.pc.allows p σ.redis x = true) (hmoves : s.Moves config σ σ' x pc)
    (hhistory : σ'.history = σ.history ++ pc.events)
    : ∃ stage' k', Follows total value p base σ' pc stage' k' := by
  have hstage : s.pc.stage p = .republishing republish.pc := by
    rw [hpc]
    exact if_pos hp
  obtain ⟨rfl, hcount⟩ := hfits.beyond stale (by simp [hstage]) (by rw [hpc]; rfl)
  rw [hstage] at hholds
  obtain ⟨hk, hrecorded, hcounting⟩ := hholds
  have hpair := hfits.pair _ _ _ hpc
  have hok : x = .ok ∧ (σ.redis.exec republish.command).isSome = true := by
    rw [hpc] at hallows
    simp only [SweepPc.allows, hp, bne_self_eq_false, Bool.false_or] at hallows
    split at hallows
    . exact ⟨rfl, hallows⟩
    . contradiction
  obtain ⟨rfl, hsome⟩ := hok
  cases hmoves with
  | bumped pending' republish' stale' reply hpc' hexec =>
    rw [hpc] at hpc'
    cases hpc'
    have hcounting' : Counting total value p σ'.redis (k + 1) := by
      subst hp
      exact hcounting.republish hcounter hk hexec
    unfold Sweep.afterRepublish at hhistory ⊢
    split
    . next republish' hnext =>
      rw [hnext] at hhistory
      obtain ⟨hpair', hpc'⟩ := Republish.next_spec hnext
      refine follows_at (k := k) (.republishing republish'.pc) (if_pos (hpair'.trans hp))
        (by simp) ?_ hcount rfl rfl rfl (by intro _ _ _ h; contradiction) ?_
      . refine ⟨hk, ?_, ?_⟩
        . rw [hhistory]
          exact hrecorded.append rfl rfl
        . rw [if_neg hpc']
          exact hcounting'
      . rintro _ _ _ ⟨⟩
        exact hpair'.trans hpair
    . next hnext =>
      rw [hnext] at hhistory
      split
      . next hcreatedAt =>
        rw [hcreatedAt] at hhistory
        have hholds : Stage.free.Holds total value p base { σ with redis := σ'.redis } (k + 1) :=
          ⟨hrecorded.mono (Nat.le_succ k), hcounting'⟩
        have hfollows : ∃ stage', Follows total value p base σ' (.visit stale) stage' (k + 1) :=
          follows_visit hholds (pending_of_count hcount rfl) (.of_eq rfl) hhistory
        obtain ⟨stage', hfollows⟩ := hfollows
        exact ⟨stage', k + 1, hfollows⟩
      . next createdAt hcreatedAt =>
        rw [hcreatedAt] at hhistory
        refine follows_at (k := k) .publishing (if_pos (hpair.symm.trans hp)) (by simp) ?_
          hcount rfl rfl rfl (by intro _ _ _ h; contradiction)
          (by intro _ _ _ h; contradiction)
        refine ⟨hk, ?_, hcounting'⟩
        rw [hhistory]
        exact hrecorded.publish _
  | listed hpc' _ => rw [hpc] at hpc'; contradiction
  | orphan _ _ _ _ _ hpc' _ _ => rw [hpc] at hpc'; contradiction
  | skipped _ _ _ _ _ _ hpc' _ _ _ => rw [hpc] at hpc'; contradiction
  | read _ _ _ _ _ _ _ hpc' _ _ _ => rw [hpc] at hpc'; contradiction
  | removed _ _ _ hpc' _ => rw [hpc] at hpc'; contradiction
  | marked _ _ _ _ hpc' _ => rw [hpc] at hpc'; contradiction
  | published _ _ _ hpc' _ => rw [hpc] at hpc'; contradiction
  | given x' stale' hrest hx hanswer hredis =>
    obtain ⟨command, hawaits, hnone⟩ := hx rfl
    simp only [Call.awaits, hpc, Await.redis.injEq] at hawaits
    subst hawaits
    rw [hnone] at hsome
    contradiction

theorem follows_publishing (hfits : s.pc.Fits p (value k) stage)
    (hholds : stage.Holds total value p base σ k) {payload : CouponIssueRequestPayload}
    {stale : List PendingIssue} (hpc : s.pc = .publishForScheduler payload stale)
    (hp : (payload.userId, payload.couponTypeId) = p) (hmoves : s.Moves config σ σ' x pc)
    (hhistory : σ'.history = σ.history ++ pc.events)
    : ∃ stage' k', Follows total value p base σ' pc stage' k' := by
  have hstage : s.pc.stage p = .publishing := by
    rw [hpc]
    exact if_pos hp
  obtain ⟨rfl, hcount⟩ := hfits.beyond stale (by simp [hstage]) (by rw [hpc]; rfl)
  rw [hstage] at hholds
  obtain ⟨hk, hrecorded, hcounting⟩ := hholds
  have hholds : Stage.free.Holds total value p base σ (k + 1) := ⟨hrecorded, hcounting⟩
  cases hmoves with
  | published x' payload' stale' hpc' hredis =>
    rw [hpc] at hpc'
    cases hpc'
    obtain ⟨stage', hfollows⟩ := follows_visit hholds (pending_of_count hcount rfl)
      (.of_eq hredis) hhistory
    exact ⟨stage', k + 1, hfollows⟩
  | crashed hredis hrunning =>
    exact ⟨.free, k + 1, follows_end hholds rfl (.of_eq hredis) rfl hhistory⟩
  | listed hpc' _ => rw [hpc] at hpc'; contradiction
  | orphan _ _ _ _ _ hpc' _ _ => rw [hpc] at hpc'; contradiction
  | skipped _ _ _ _ _ _ hpc' _ _ _ => rw [hpc] at hpc'; contradiction
  | read _ _ _ _ _ _ _ hpc' _ _ _ => rw [hpc] at hpc'; contradiction
  | removed _ _ _ hpc' _ => rw [hpc] at hpc'; contradiction
  | synced _ _ _ hpc' _ => rw [hpc] at hpc'; contradiction
  | republishes _ _ hpc' _ _ => rw [hpc] at hpc'; contradiction
  | givesUp _ _ hpc' _ _ => rw [hpc] at hpc'; contradiction
  | marked _ _ _ _ hpc' _ => rw [hpc] at hpc'; contradiction
  | bumped _ _ _ _ hpc' _ => rw [hpc] at hpc'; contradiction
  | abandoned _ hpc' _ => rw [hpc] at hpc'; contradiction
  | given x' stale' hrest hx hanswer hredis => rw [hpc] at hrest; contradiction

end Work

end ServerB
