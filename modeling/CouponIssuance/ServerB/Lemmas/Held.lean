import CouponIssuance.ServerB.Lemmas.Attempts

/-!
This module contains the entries that a sweep has in hand, from the hash that it reads to the
publish.
-/

namespace ServerB

open Concurrency Redis.Server

def SweepPc.held : SweepPc → List PendingIssue
  | recordRepublish pending _ stale => pending :: stale
  | pc => pc.entries

section Entries

variable {config : Config} {σ σ' : Shared} {w : Sweep} {x : Input} {pc : SweepPc} {e : PendingIssue}

theorem SweepPc.held_visit (stale : List PendingIssue) : (visit stale).held = stale := by
  cases stale <;> rfl

theorem SweepPc.held_scan (members : List String) (result : List PendingIssue)
    : (scan members result).held = result := by
  rcases scan_cases members result with h | ⟨_, _, _, _, _, h⟩
  . rw [h]
    exact held_visit result
  . rw [h]
    rfl

theorem SweepPc.mem_held_of_mem_entries (he : e ∈ pc.entries) : e ∈ pc.held := by
  cases pc with
  | recordRepublish pending republish stale => exact List.mem_cons_of_mem _ he
  | _ => exact he

theorem Sweep.Moves.held (hmoves : w.Moves config σ σ' x pc) (he : e ∈ pc.held)
    : e ∈ w.pc.held
        ∨ ∃ userId couponTypeId member members result hash,
            w.pc = .hgetall userId couponTypeId member members result ∧ x = .ok
              ∧ σ.redis.hashes (RedisKeys.pendingHash userId couponTypeId) = some hash
              ∧ readEntry userId couponTypeId hash.fields = some e := by
  cases hmoves with
  | listed hpc hredis =>
    rw [SweepPc.held_scan] at he
    contradiction
  | orphan userId couponTypeId member members result hpc hredis hnone =>
    rw [hpc]
    exact .inl he
  | skipped userId couponTypeId member members result hash hpc hredis hhash hread =>
    rw [SweepPc.held_scan] at he
    rw [hpc]
    exact .inl he
  | read userId couponTypeId member members result hash pending hpc hredis hhash hread =>
    rw [SweepPc.held_scan] at he
    rcases List.mem_append.mp he with he | he
    . rw [hpc]
      exact .inl he
    . rw [List.mem_singleton.mp he]
      exact .inr ⟨_, _, _, _, _, hash, hpc, rfl, hhash, hread⟩
  | removed member members result hpc hredis =>
    rw [SweepPc.held_scan] at he
    rw [hpc]
    exact .inl he
  | synced pending stale result hpc hredis =>
    rw [hpc]
    exact .inl (List.mem_cons_of_mem _ he)
  | republishes pending stale hpc hredis hlt =>
    rw [hpc]
    exact .inl he
  | givesUp pending stale hpc hredis hlt =>
    rw [hpc]
    exact .inl (List.mem_cons_of_mem _ he)
  | marked mark gaveUp stale reply hpc hexec =>
    rw [hpc]
    unfold afterMark at he
    split at he
    . exact .inl he
    . rw [SweepPc.held_visit] at he
      exact .inl he
  | bumped pending republish stale reply hpc hexec =>
    rw [hpc]
    unfold afterRepublish at he
    split at he
    . exact .inl he
    . split at he
      . rw [SweepPc.held_visit] at he
        exact .inl (List.mem_cons_of_mem _ he)
      . exact .inl (List.mem_cons_of_mem _ he)
  | published x payload stale hpc hredis =>
    rw [SweepPc.held_visit] at he
    rw [hpc]
    exact .inl he
  | abandoned executed hpc hredis => contradiction
  | given x stale hpc hx hanswer hredis =>
    rw [SweepPc.held_visit] at he
    exact .inl (SweepPc.mem_held_of_mem_entries ((SweepPc.rest?_spec hpc).2 e he))
  | crashed hredis hpc => contradiction

def SweepPc.Paired : SweepPc → Prop
  | recordRepublish pending republish _ => republish.pair = pending.pair
  | _ => True

theorem SweepPc.paired_visit (stale : List PendingIssue) : (visit stale).Paired := by
  rcases visit_cases stale with h | ⟨pending, rest, _, h⟩ <;> rw [h] <;> trivial

theorem SweepPc.paired_scan (members : List String) (result : List PendingIssue)
    : (scan members result).Paired := by
  rcases scan_cases members result with h | ⟨_, _, _, _, _, h⟩
  . rw [h]
    exact paired_visit result
  . rw [h]
    trivial

theorem SweepPc.visit_ne_publish (stale rest : List PendingIssue)
    (payload : CouponIssueRequestPayload)
    : visit stale ≠ .publishForScheduler payload rest := by
  rcases visit_cases stale with h | ⟨pending, rest, _, h⟩ <;> rw [h] <;> simp

theorem SweepPc.scan_ne_publish (members : List String) (result rest : List PendingIssue)
    (payload : CouponIssueRequestPayload)
    : scan members result ≠ .publishForScheduler payload rest := by
  rcases scan_cases members result with h | ⟨_, _, _, _, _, h⟩
  . rw [h]
    exact visit_ne_publish result rest payload
  . rw [h]
    simp

theorem Sweep.Moves.paired (hmoves : w.Moves config σ σ' x pc) (h : w.pc.Paired) : pc.Paired := by
  cases hmoves with
  | republishes pending stale hpc hredis hlt => rfl
  | marked mark gaveUp stale reply hpc hexec =>
    unfold afterMark
    split
    . trivial
    . exact SweepPc.paired_visit stale
  | bumped pending republish stale reply hpc hexec =>
    rw [hpc] at h
    unfold afterRepublish
    split
    . next hnext => exact (Republish.next_spec hnext).1.trans h
    . split
      . exact SweepPc.paired_visit stale
      . trivial
  | _ => first | trivial | exact SweepPc.paired_scan _ _ | exact SweepPc.paired_visit _

theorem Sweep.Moves.publishes {payload : CouponIssueRequestPayload} {stale : List PendingIssue}
    (hmoves : w.Moves config σ σ' x (.publishForScheduler payload stale))
    : ∃ pending r createdAt, w.pc = .recordRepublish pending r stale ∧ r.pc = .zadd
        ∧ pending.createdAt = some createdAt ∧ payload = republishPayload pending createdAt
        ∧ ∃ reply, σ.redis.exec r.command = some (σ'.redis, reply) := by
  generalize htarget : SweepPc.publishForScheduler payload stale = pc at hmoves
  cases hmoves with
  | bumped pending r rest reply hpc hexec =>
    unfold afterRepublish at htarget
    split at htarget
    . contradiction
    . next hnext =>
      split at htarget
      . exact absurd htarget.symm (SweepPc.visit_ne_publish _ _ _)
      . next createdAt hcreatedAt =>
        rw [SweepPc.publishForScheduler.injEq] at htarget
        obtain ⟨rfl, rfl⟩ := htarget
        refine ⟨pending, r, createdAt, hpc, ?_, hcreatedAt, rfl, reply, hexec⟩
        unfold Republish.next at hnext
        split at hnext <;> first | contradiction | assumption
  | marked mark gaveUp rest reply hpc hexec =>
    unfold afterMark at htarget
    split at htarget
    . contradiction
    . exact absurd htarget.symm (SweepPc.visit_ne_publish _ _ _)
  | listed hpc hredis => exact absurd htarget.symm (SweepPc.scan_ne_publish _ _ _ _)
  | skipped userId couponTypeId member members result hash hpc hredis hhash hread =>
    exact absurd htarget.symm (SweepPc.scan_ne_publish _ _ _ _)
  | read userId couponTypeId member members result hash pending hpc hredis hhash hread =>
    exact absurd htarget.symm (SweepPc.scan_ne_publish _ _ _ _)
  | removed member members result hpc hredis =>
    exact absurd htarget.symm (SweepPc.scan_ne_publish _ _ _ _)
  | published x payload rest hpc hredis => exact absurd htarget.symm (SweepPc.visit_ne_publish _ _ _)
  | given x rest hpc hx hanswer hredis =>
    exact absurd htarget.symm (SweepPc.visit_ne_publish _ _ _)
  | _ => contradiction

end Entries

end ServerB
