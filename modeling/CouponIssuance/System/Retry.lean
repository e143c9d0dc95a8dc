import CouponIssuance.System.Application

/-!
This module contains what the retry of server-a makes of a first application: it is answered
`DUPLICATE` when server-b has accepted an attempt that server-a has given up, and only then.
-/

namespace System.Application

open Concurrency ServerA ServerB

/-- No hash of the pair has a `userId`, and no application for it is in progress anywhere. -/
structure State.IsIdle (s : State) (p : Pair) : Prop where
  unclaimed : s.b.shared.redis.get p.hashKey .userId = none
  issues : ∀ g ∈ s.issues, pair g.issue.command = p → g.issue.pc.isOver = true
  requests : ∀ r ∈ s.requests, pair? r.request = some p → r.accept ≠ none
  accepts : ∀ a, .accept a ∈ s.b.calls → a.pair = p → a.isRunning = false

def alone (p : Pair) : Act → Bool
  | .issue command => pair command != p
  | _ => true

def State.isChecked (s : State) (i retries : Nat) : Bool :=
  s.requests.any fun r =>
    r.issue == i && r.retries == retries && (s.accept? r).any fun a => !a.isUnchecked

def repeatsClaim (s : State) (i : Nat) (p : Pair) : Bool :=
  match s.issues[i]? with
  | some ⟨_, .post retries⟩ =>
    retries < HttpCouponIssuingClient.maxAttempts && !s.b.isUnclaimed p
  | _ => false

def checksAbandoned (s : State) (i j : Nat) : Bool :=
  s.requests.any fun r =>
    r.issue == i && r.accept == some j && (s.accept? r).any ServerB.Accept.isUnchecked
      && ((s.issues[i]?).bind Issuing.awaits).any fun retries =>
        retries != r.retries && !s.isChecked i retries

/--
Server-a repeats the request of call `i` only when server-b has not accepted it, and server-b does
not accept it before the repetition.
-/
def unrepeated (i : Nat) (p : Pair) (s : State) : Act → Bool
  | .serverA j (.client (.rejected _)) => j != i || !repeatsClaim s i p
  | .serverB (.step j x) => !(x.executes && checksAbandoned s i j)
  | _ => true

section Step

variable {config : ServerB.Config} {s t : State} {i j : Nat} {p : Pair}

theorem isChecked_iff {n : Nat}
    : s.isChecked i n = true
        ↔ ∃ r ∈ s.requests, r.issue = i ∧ r.retries = n
          ∧ ∃ j a, r.accept = some j ∧ s.b.calls[j]? = some (.accept a)
            ∧ a.isUnchecked = false := by
  simp only [State.isChecked, List.any_eq_true, Bool.and_eq_true, beq_iff_eq, Option.any_eq_true,
    Bool.not_eq_true', accept?_eq_some, and_assoc]
  constructor
  . rintro ⟨r, hr, hissue, hretries, a, ⟨j, hj, ha⟩, hchecked⟩
    exact ⟨r, hr, hissue, hretries, j, a, hj, ha, hchecked⟩
  . rintro ⟨r, hr, hissue, hretries, j, a, hj, ha, hchecked⟩
    exact ⟨r, hr, hissue, hretries, a, ⟨j, hj, ha⟩, hchecked⟩

structure Tracked (s : State) (i : Nat) (p : Pair) (g : Issuing) : Prop where
  issue : s.issues[i]? = some g
  pair : pair g.issue.command = p
  original : g.Original
  others : ∀ (j : Nat) h, j ≠ i → s.issues[j]? = some h → Application.pair h.issue.command = p
    → h.issue.pc.isOver = true
  requests : ∀ r ∈ s.requests, r.issue = i
    → r.request = HttpCouponIssuingClient.request g.issue.command
      ∧ g.client.hasSent r.retries = true
  once : ∀ (k l : Nat) r r', s.requests[k]? = some r → s.requests[l]? = some r' → r.issue = i
    → r'.issue = i → r.retries = r'.retries → k = l
  arriving : ∀ r ∈ s.requests, pair? r.request = some p → r.accept = none → r.issue = i
  running : ∀ (j : Nat) a, s.b.calls[j]? = some (.accept a) → a.pair = p → a.isRunning = true
    → ∃ r ∈ s.requests, r.issue = i ∧ r.accept = some j
  unclaimed : ∀ n, g.awaits = some n → s.isChecked i n = false → s.b.isUnclaimed p = true
  answer : ∀ n r j a, g.awaits = some n → r ∈ s.requests → r.issue = i → r.retries = n
    → r.accept = some j → s.b.calls[j]? = some (.accept a) → a.isDuplicate = false

theorem Tracked.start {command : IssueCommand} (hformed : Formed s)
    (hidle : s.IsIdle (Application.pair command))
    : Tracked (s.issue command) s.issues.length (Application.pair command)
        (Issuing.start command) where
  issue := by simp [State.issue]
  pair := rfl
  original := Issuing.original_start command
  others j h hj hh hpair := by
    rcases Calls.getElem?_append_cases hh with hh | ⟨hlast, _⟩
    . exact hidle.issues h (List.mem_of_getElem? hh) hpair
    . exact absurd hlast hj
  requests r hr hissue := by
    have := hformed.issue r hr
    omega
  once k l r r' hk _ hissue _ _ := by
    have := hformed.issue r (List.mem_of_getElem? hk)
    omega
  arriving r hr hpair hnone := absurd hnone (hidle.requests r hr hpair)
  running j a ha hpair hrunning := by
    rw [hidle.accepts a (List.mem_of_getElem? ha) hpair] at hrunning
    contradiction
  unclaimed n _ _ := by
    simp only [State.isUnclaimed, Bool.and_eq_true, Bool.not_eq_true', List.any_eq_false]
    refine ⟨by rw [State.issue, hidle.unclaimed]; rfl, ?_⟩
    intro c hc hfilling
    unfold Call.isFilling at hfilling
    split at hfilling
    . next a =>
      split at hfilling
      . next hpc =>
        have hover := hidle.accepts a hc (beq_iff_eq.mp hfilling)
        simp [Accept.isRunning, hpc] at hover
      . contradiction
    . contradiction
  answer n r j a _ hr hissue := by
    have := hformed.issue r hr
    omega

variable {g : Issuing}

theorem Tracked.other {command : IssueCommand} (h : Tracked s i p g)
    (hpair : Application.pair command ≠ p)
    : Tracked (s.issue command) i p g where
  issue := by
    have hlt := (List.getElem?_eq_some_iff.mp h.issue).1
    exact (List.getElem?_append_left hlt).trans h.issue
  pair := h.pair
  original := h.original
  others j h' hj hh hp := by
    rcases Calls.getElem?_append_cases hh with hh | ⟨_, rfl⟩
    . exact h.others j h' hj hh hp
    . exact absurd hp hpair
  requests := h.requests
  once := h.once
  arriving := h.arriving
  running := h.running
  unclaimed := h.unclaimed
  answer := h.answer

theorem Tracked.serverA_other {x : IssuingInput} (h : Tracked s i p g) (hji : j ≠ i)
    (hnext : next config s (.serverA j x) = some t)
    : Tracked t i p g := by
  obtain ⟨f, f', hf, _, hstep, rfl⟩ := next_serverA hnext
  have hcommand := Issuing.command_step hstep
  have hother : Application.pair f'.issue.command ≠ p := by
    intro hp
    rw [hcommand] at hp
    rw [Issuing.step_of_isOver (h.others j f hji hf hp)] at hstep
    contradiction
  have hsent : ∀ r ∈ sent j f' x, r.issue = j ∧ pair? r.request ≠ some p := by
    intro r hr
    rw [(sent_spec hr).2.2]
    exact ⟨rfl, fun hpair => hother (pair_of_request hpair)⟩
  have hold : ∀ r ∈ s.requests ++ sent j f' x, r.issue = i → r ∈ s.requests := by
    intro r hr hissue
    rcases List.mem_append.mp hr with hr | hr
    . exact hr
    . exact absurd ((hsent r hr).1.symm.trans hissue) hji
  refine ⟨?_, h.pair, h.original, ?_, ?_, ?_, ?_, ?_, ?_, ?_⟩
  . exact (List.getElem?_set_ne hji).trans h.issue
  . intro l f'' hl hf'' hp
    rcases Calls.getElem?_set_cases hf'' with ⟨_, rfl⟩ | ⟨_, hf''⟩
    . exact absurd hp hother
    . exact h.others l f'' hl hf'' hp
  . intro r hr hissue
    exact h.requests r (hold r hr hissue) hissue
  . intro k l r r' hk hl hr hr'
    have hindex : ∀ {k : Nat} {r : Request}, (s.requests ++ sent j f' x)[k]? = some r
        → r.issue = i → s.requests[k]? = some r := by
      intro k r hk hr
      rw [List.getElem?_append] at hk
      split at hk
      . exact hk
      . exact absurd ((hsent r (List.mem_of_getElem? hk)).1.symm.trans hr) hji
    exact h.once k l r r' (hindex hk hr) (hindex hl hr') hr hr'
  . intro r hr hpair hnone
    rcases List.mem_append.mp hr with hr | hr
    . exact h.arriving r hr hpair hnone
    . exact absurd hpair (hsent r hr).2
  . intro l a ha hpair hrunning
    obtain ⟨r, hr, hissue, haccept⟩ := h.running l a ha hpair hrunning
    exact ⟨r, List.mem_append_left _ hr, hissue, haccept⟩
  . intro n hn hchecked
    refine h.unclaimed n hn ?_
    rw [← Bool.not_eq_true, isChecked_iff] at hchecked ⊢
    rintro ⟨r, hr, hrest⟩
    exact hchecked ⟨r, List.mem_append_left _ hr, hrest⟩
  . intro n r l a hn hr hissue
    exact h.answer n r l a hn (hold r hr hissue) hissue

theorem Tracked.own {g' : Issuing} (h : Tracked s i p g)
    (hcommand : g'.issue.command = g.issue.command) (horiginal : g'.Original)
    (hsent : ∀ k, g.client.hasSent k = true → g'.client.hasSent k = true)
    (hunclaimed : ∀ n, g'.awaits = some n → s.isChecked i n = false → s.b.isUnclaimed p = true)
    (hanswer : ∀ n r j a, g'.awaits = some n → r ∈ s.requests → r.issue = i → r.retries = n
      → r.accept = some j → s.b.calls[j]? = some (.accept a) → a.isDuplicate = false)
    : Tracked { s with issues := s.issues.set i g' } i p g' where
  issue := List.getElem?_set_self (List.getElem?_eq_some_iff.mp h.issue).1
  pair := by rw [hcommand]; exact h.pair
  original := horiginal
  others j h' hj hh hp := by
    rcases Calls.getElem?_set_cases hh with ⟨hji, _⟩ | ⟨_, hh⟩
    . exact absurd hji hj
    . exact h.others j h' hj hh hp
  requests r hr hissue := by
    obtain ⟨hrequest, hretries⟩ := h.requests r hr hissue
    exact ⟨by rw [hcommand]; exact hrequest, hsent _ hretries⟩
  once := h.once
  arriving := h.arriving
  running := h.running
  unclaimed := hunclaimed
  answer := hanswer

theorem Tracked.sends {n : Nat} {g' : Issuing} (h : Tracked s i p g) (hissue : g'.issue = g.issue)
    (hclient : g'.client = .post n) (hpc : g.issue.pc = .client)
    (hsent : ∀ k, g.client.hasSent k = true → k < n) (hawaits : g.awaits = some n)
    : Tracked { s with
        issues := s.issues.set i g'
        requests := s.requests
          ++ [⟨i, n, HttpCouponIssuingClient.request g'.issue.command, none⟩] } i p g' := by
  have hlt : ∀ r ∈ s.requests, r.issue = i → r.retries < n := by
    intro r hr hri
    exact hsent _ (h.requests r hr hri).2
  have hawaits' : g'.awaits = some n := by
    rw [Issuing.awaits, hissue, hpc, hclient]
  refine ⟨?_, ?_, ?_, ?_, ?_, ?_, ?_, ?_, ?_, ?_⟩
  . exact List.getElem?_set_self (List.getElem?_eq_some_iff.mp h.issue).1
  . rw [hissue]
    exact h.pair
  . refine ⟨?_, ?_, ?_⟩
    . intro hbegin
      rw [hissue, hpc] at hbegin
      contradiction
    . rw [hissue]
      exact h.original.outcome
    . intro result hresult
      rw [hclient] at hresult
      contradiction
  . intro l f hl hf hp
    rcases Calls.getElem?_set_cases hf with ⟨hli, _⟩ | ⟨_, hf⟩
    . exact absurd hli hl
    . exact h.others l f hl hf hp
  . intro r hr hri
    rcases List.mem_append.mp hr with hr | hr
    . refine ⟨by rw [hissue]; exact (h.requests r hr hri).1, ?_⟩
      have := hlt r hr hri
      simp only [hclient, ClientPc.hasSent, decide_eq_true_eq]
      omega
    . rw [List.mem_singleton.mp hr]
      simp [hclient, ClientPc.hasSent]
  . intro k l r r' hk hl hr hr' hsame
    rcases Calls.getElem?_append_cases hk with hold | ⟨hlast, rfl⟩
    . have hbefore := hlt r (List.mem_of_getElem? hold) hr
      rcases Calls.getElem?_append_cases hl with hold' | ⟨_, rfl⟩
      . exact h.once k l r r' hold hold' hr hr' hsame
      . exact absurd hsame (Nat.ne_of_lt hbefore)
    . rcases Calls.getElem?_append_cases hl with hold' | ⟨hlast', _⟩
      . exact absurd hsame.symm (Nat.ne_of_lt (hlt r' (List.mem_of_getElem? hold') hr'))
      . exact hlast.trans hlast'.symm
  . intro r hr hpair hnone
    rcases List.mem_append.mp hr with hr | hr
    . exact h.arriving r hr hpair hnone
    . rw [List.mem_singleton.mp hr]
  . intro l a ha hpair hrunning
    obtain ⟨r, hr, hri, haccept⟩ := h.running l a ha hpair hrunning
    exact ⟨r, List.mem_append_left _ hr, hri, haccept⟩
  . intro m hm hchecked
    rw [hawaits', Option.some.injEq] at hm
    subst hm
    refine h.unclaimed n hawaits ?_
    rw [← Bool.not_eq_true, isChecked_iff] at hchecked ⊢
    rintro ⟨r, hr, hrest⟩
    exact hchecked ⟨r, List.mem_append_left _ hr, hrest⟩
  . intro m r l a hm hr hri hretries haccept ha
    rw [hawaits', Option.some.injEq] at hm
    rcases List.mem_append.mp hr with hr | hr
    . exact h.answer n r l a hawaits hr hri (hretries.trans hm.symm) haccept ha
    . rw [List.mem_singleton.mp hr] at haccept
      contradiction

theorem Tracked.serverA_own {x : IssuingInput} (h : Tracked s i p g)
    (hok : unrepeated i p s (.serverA i x) = true) (hnext : next config s (.serverA i x) = some t)
    : ∃ g', Tracked t i p g' := by
  obtain ⟨f, g', hf, hanswers, hstep, rfl⟩ := next_serverA hnext
  rw [h.issue, Option.some.injEq] at hf
  subst hf
  refine ⟨g', ?_⟩
  have hcommand := Issuing.command_step hstep
  cases x with
  | issue available x =>
    have hclient := (Issuing.issue_spec hstep).2.2.2
    have hawaits : ∀ n, g'.awaits = some n → g.awaits = some n := by
      intro n hn
      exact Issuing.awaits_issue hstep h.original.begins hn
    simp only [sent, List.append_nil]
    refine h.own hcommand (h.original.issue hstep) (by rw [hclient]; exact fun _ hk => hk) ?_ ?_
    . intro n hn
      exact h.unclaimed n (hawaits n hn)
    . intro n r j a hn
      exact h.answer n r j a (hawaits n hn)
  | client x =>
    obtain ⟨hpc, hissue, hclient⟩ := Issuing.client_spec hstep
    have horiginal : (∀ result, g'.client = .returned result → result.status ≠ .duplicate)
        → g'.Original := by
      intro hresult
      refine ⟨?_, by rw [hissue]; exact h.original.outcome, hresult⟩
      intro hbegin
      rw [hissue, hpc] at hbegin
      contradiction
    -- a client that has returned waits for nothing
    have hreturns : ∀ result, g'.client = .returned result → result.status ≠ .duplicate
        → Tracked { s with issues := s.issues.set i g' } i p g' := by
      intro result hresult hne
      refine h.own hcommand (horiginal ?_) (by rw [hresult]; exact fun _ _ => rfl) ?_ ?_
      . intro result' hresult'
        rw [hresult, ClientPc.returned.injEq] at hresult'
        rw [← hresult']
        exact hne
      . intro n hn
        simp [Issuing.awaits, hissue, hpc, hresult] at hn
      . intro n r j a hn
        simp [Issuing.awaits, hissue, hpc, hresult] at hn
    generalize hc : g.client = client at hclient
    unfold HttpCouponIssuingClient.step at hclient
    split at hclient
    . -- the first POST
      have hpost := (Option.some.inj hclient).symm
      simp only [sent, hpost]
      exact h.sends hissue hpost hpc (by simp [hc, ClientPc.hasSent])
        (by simp [Issuing.awaits, hpc, hc])
    . have hresult := (Option.some.inj hclient).symm
      simp only [sent, List.append_nil]
      exact hreturns _ hresult (by decide)
    . next retries body =>
      have hresult := (Option.some.inj hclient).symm
      simp only [sent, List.append_nil]
      refine hreturns _ hresult ?_
      simp only [State.answers, hc, List.any_eq_true, Bool.and_eq_true, beq_iff_eq] at hanswers
      -- the response is the answer of the `accept` that this POST has begun
      obtain ⟨r, hr, ⟨hri, hretries⟩, hresponds⟩ := hanswers
      unfold State.responds at hresponds
      split at hresponds
      . contradiction
      . next a ha =>
        split at hresponds
        . next answer hanswer =>
          obtain ⟨j, haccept, hj⟩ := accept?_eq_some.mp ha
          have hfirst := h.answer retries r j a (by simp [Issuing.awaits, hpc, hc]) hr hri hretries
            haccept hj
          rw [beq_iff_eq.mp hresponds, result_toIssueResponse]
          simpa [Accept.isDuplicate, hanswer] using hfirst
        . contradiction
    . next retries error =>
      split at hclient
      . next hretry =>
        have hbackoff := (Option.some.inj hclient).symm
        simp only [sent, List.append_nil]
        refine h.own hcommand (horiginal ?_) ?_ ?_ ?_
        . intro result hresult
          rw [hbackoff] at hresult
          contradiction
        . intro k hk
          rw [hc] at hk
          rw [hbackoff]
          exact hk
        . -- the condition excludes a retry that would meet the claim of its own application
          intro n _ _
          obtain ⟨issue, client⟩ := g
          subst hc
          simpa [unrepeated, repeatsClaim, h.issue, hretry] using hok
        . intro n r j a hn hr hri hretries _ _
          have hsent := (h.requests r hr hri).2
          simp only [Issuing.awaits, hissue, hpc, hbackoff, Option.some.injEq] at hn
          simp only [hc, ClientPc.hasSent, decide_eq_true_eq] at hsent
          omega
      . have hresult := (Option.some.inj hclient).symm
        simp only [sent, List.append_nil]
        refine hreturns _ hresult ?_
        rw [HttpCouponIssuingClient.status_fallback]
        decide
    . next retries =>
      -- the pause is over, and the POST is repeated
      have hpost := (Option.some.inj hclient).symm
      simp only [sent, hpost]
      refine h.sends hissue hpost hpc ?_ (by simp [Issuing.awaits, hpc, hc])
      intro k hk
      simp only [hc, ClientPc.hasSent, decide_eq_true_eq] at hk
      omega
    . contradiction

theorem Tracked.arrive {k : Nat} {requestId : String} (h : Tracked s i p g)
    (hnext : next config s (.arrive k requestId) = some t)
    : Tracked t i p g := by
  obtain ⟨r, save, hr, hnone, hsave, hb, rfl⟩ := next_arrive hnext
  have hrmem := List.mem_of_getElem? hr
  have hcalls : ∀ (j : Nat) a, s.b.calls[j]? = some a
      → (s.b.calls ++ [newAccept save])[j]? = some a := by
    intro j a hj
    rw [List.getElem?_append_left (List.getElem?_eq_some_iff.mp hj).1, hj]
  -- a request that has arrived before stays as it is
  have hkeep : ∀ r' ∈ s.requests, ∀ j, r'.accept = some j
      → r' ∈ s.requests.set k { r with accept := some s.b.calls.length } := by
    intro r' hr' j hj
    obtain ⟨l, hl⟩ := List.mem_iff_getElem?.mp hr'
    have hne : k ≠ l := by
      rintro rfl
      rw [hr, Option.some.injEq] at hl
      rw [← hl, hnone] at hj
      contradiction
    exact List.mem_of_getElem? ((List.getElem?_set_ne hne).trans hl)
  have horigin : ∀ r' ∈ s.requests.set k { r with accept := some s.b.calls.length },
      ∃ r0 ∈ s.requests, r'.issue = r0.issue ∧ r'.retries = r0.retries
        ∧ r'.request = r0.request := by
    intro r' hr'
    rcases List.mem_or_eq_of_mem_set hr' with hr' | rfl
    . exact ⟨r', hr', rfl, rfl, rfl⟩
    . exact ⟨r, hrmem, rfl, rfl, rfl⟩
  refine ⟨h.issue, h.pair, h.original, h.others, ?_, ?_, ?_, ?_, ?_, ?_⟩
  . intro r' hr' hri
    obtain ⟨r0, hr0, hissue, hretries, hrequest⟩ := horigin r' hr'
    rw [hretries, hrequest]
    exact h.requests r0 hr0 (hissue.symm.trans hri)
  . intro l m r1 r2 hl hm hr1 hr2 hsame
    have hindex : ∀ {l : Nat} {r' : Request},
        (s.requests.set k { r with accept := some s.b.calls.length })[l]? = some r'
          → ∃ r0, s.requests[l]? = some r0 ∧ r'.issue = r0.issue ∧ r'.retries = r0.retries := by
      intro l r' hl
      rcases Calls.getElem?_set_cases hl with ⟨rfl, rfl⟩ | ⟨_, hl⟩
      . exact ⟨r, hr, rfl, rfl⟩
      . exact ⟨r', hl, rfl, rfl⟩
    obtain ⟨q1, hq1, hissue1, hretries1⟩ := hindex hl
    obtain ⟨q2, hq2, hissue2, hretries2⟩ := hindex hm
    exact h.once l m q1 q2 hq1 hq2 (hissue1.symm.trans hr1) (hissue2.symm.trans hr2)
      (hretries1.symm.trans (hsame.trans hretries2))
  . intro r' hr' hpair hnone'
    rcases List.mem_or_eq_of_mem_set hr' with hr' | rfl
    . exact h.arriving r' hr' hpair hnone'
    . contradiction
  . intro j a ha hpair hrunning
    rcases Calls.getElem?_append_cases ha with hold | ⟨rfl, hnew⟩
    . obtain ⟨r', hr', hri, haccept⟩ := h.running j a hold hpair hrunning
      exact ⟨r', hkeep r' hr' j haccept, hri, haccept⟩
    . rw [newAccept, Call.accept.injEq] at hnew
      subst hnew
      have hri := h.arriving r hrmem ((pair_of_toSave? hsave).trans (congrArg some hpair)) hnone
      have hlt := (List.getElem?_eq_some_iff.mp hr).1
      exact ⟨_, List.mem_of_getElem? (List.getElem?_set_self hlt), hri, rfl⟩
  . intro n hn hchecked
    refine isUnclaimed_next (h.unclaimed n hn ?_) hb (by intro j x a hact; contradiction)
    rw [← Bool.not_eq_true, isChecked_iff] at hchecked ⊢
    rintro ⟨r', hr', hri, hretries, j, a, haccept, ha, hun⟩
    exact hchecked ⟨r', hkeep r' hr' j haccept, hri, hretries, j, a, haccept, hcalls j _ ha, hun⟩
  . intro n r' j a hn hr' hri hretries haccept ha
    rcases Calls.getElem?_append_cases ha with hold | ⟨_, hnew⟩
    . rcases List.mem_or_eq_of_mem_set hr' with hr' | rfl
      . exact h.answer n r' j a hn hr' hri hretries haccept hold
      . have := (List.getElem?_eq_some_iff.mp hold).1
        simp only [Option.some.injEq] at haccept
        omega
    . rw [newAccept, Call.accept.injEq] at hnew
      rw [hnew]
      rfl

theorem Tracked.serverB {act : ServerB.Act} (h : Tracked s i p g) (hformed : Formed s)
    (hok : unrepeated i p s (.serverB act) = true) (hnext : next config s (.serverB act) = some t)
    : Tracked t i p g := by
  obtain ⟨hnoaccept, b, hb, rfl⟩ := next_serverB hnext
  -- the pair of an `accept` of call `i`
  have hpair : ∀ r ∈ s.requests, r.issue = i → ∀ (j : Nat) a, r.accept = some j
      → s.b.calls[j]? = some (.accept a) → a.pair = p := by
    intro r hr hri j a haccept ha
    obtain ⟨c, hc, hpair⟩ := hformed.accept r hr j haccept
    rw [ha, Option.some.injEq, Call.accept.injEq] at hc
    rw [(h.requests r hr hri).1, ← hc] at hpair
    exact (pair_of_request hpair).symm.trans h.pair
  have hbefore : ∀ (j : Nat) a', b.calls[j]? = some (.accept a')
      → s.b.calls[j]? = some (.accept a')
        ∨ ∃ x a, act = .step j x ∧ s.b.calls[j]? = some (.accept a)
          ∧ (Call.accept a).Steps config s.b.shared b.shared x (.accept a') := by
    intro j a' ha'
    rcases Calls.getElem?_next hb ha' with hsame | ⟨x, f, hact, hf, hstep⟩ | ⟨hact, _⟩
    . exact Or.inl hsame
    . have hsteps := Call.step_spec hstep
      obtain ⟨a, rfl⟩ := Call.accept_of_steps hsteps
      exact Or.inr ⟨x, a, hact, hf, hsteps⟩
    . rw [hact] at hnoaccept
      contradiction
  have hchecks : ∀ n, s.isChecked i n = true → ({ s with b := b } : State).isChecked i n = true := by
    intro n hchecked
    rw [isChecked_iff] at hchecked ⊢
    obtain ⟨r, hr, hri, hretries, j, a, haccept, ha, hun⟩ := hchecked
    rcases accept_of_next hb ha with hsame | ⟨x, a', _, ha', hsteps⟩
    . exact ⟨r, hr, hri, hretries, j, a, haccept, hsame, hun⟩
    . exact ⟨r, hr, hri, hretries, j, a', haccept, ha', Accept.isUnchecked_steps hsteps⟩
  refine ⟨h.issue, h.pair, h.original, h.others, h.requests, h.once, h.arriving, ?_, ?_, ?_⟩
  . intro j a' ha' hp hrunning
    rcases hbefore j a' ha' with hsame | ⟨x, a, _, ha, hsteps⟩
    . exact h.running j a' hsame hp hrunning
    . rw [(Accept.generation_steps hsteps).1] at hp
      exact h.running j a ha hp (Accept.isRunning_steps hsteps)
  . intro n hn hchecked
    have hcheckedBefore : s.isChecked i n = false := by
      rw [← Bool.not_eq_true] at hchecked ⊢
      exact fun hc => hchecked (hchecks n hc)
    refine isUnclaimed_next (h.unclaimed n hn hcheckedBefore) hb ?_
    intro j x a hact ha hp hun
    subst hact
    obtain ⟨f, σ', f', hf, _, hstep, rfl⟩ := Calls.next_step hb
    rw [ha, Option.some.injEq] at hf
    subst hf
    have hsteps := Call.step_spec hstep
    obtain ⟨r, hr, hri, haccept⟩ := h.running j a ha hp (Accept.isRunning_steps hsteps)
    by_cases hretries : r.retries = n
    . -- the step itself is the check
      obtain ⟨a', rfl⟩ := Accept.steps_accept hsteps
      rw [← Bool.not_eq_true, isChecked_iff] at hchecked
      refine absurd ⟨r, hr, hri, hretries, j, a', haccept, ?_, ?_⟩ hchecked
      . exact List.getElem?_set_self (List.getElem?_eq_some_iff.mp ha).1
      . exact Accept.isUnchecked_steps hsteps
    . by_contra hexecutes
      rw [Bool.not_eq_false] at hexecutes
      have habandoned : checksAbandoned s i j = true := by
        simp only [checksAbandoned, List.any_eq_true, Bool.and_eq_true, beq_iff_eq,
          Option.any_eq_true, accept?_eq_some, Option.bind_eq_some_iff, bne_iff_ne,
          Bool.not_eq_true']
        exact ⟨r, hr, ⟨⟨hri, haccept⟩, a, ⟨j, haccept, ha⟩, hun⟩, n, ⟨g, h.issue, hn⟩,
          Ne.symm hretries, hcheckedBefore⟩
      simp [unrepeated, hexecutes, habandoned] at hok
  . intro n r j a' hn hr hri hretries haccept ha'
    rcases hbefore j a' ha' with hsame | ⟨x, a, _, ha, hsteps⟩
    . exact h.answer n r j a' hn hr hri hretries haccept hsame
    . by_contra hdup
      rw [Bool.not_eq_false] at hdup
      obtain ⟨hpc, _, _, hsome⟩ := Accept.isDuplicate_steps hsteps hdup
      have hun : a.isUnchecked = true := by simp [Accept.isUnchecked, hpc]
      have hunchecked : s.isChecked i n = false := by
        rw [← Bool.not_eq_true, isChecked_iff]
        rintro ⟨r', hr', hri', hretries', l, c, hl, hc, hchecked⟩
        obtain ⟨m, hm⟩ := List.mem_iff_getElem?.mp hr
        obtain ⟨m', hm'⟩ := List.mem_iff_getElem?.mp hr'
        have := h.once m m' r r' hm hm' hri hri' (hretries.trans hretries'.symm)
        subst this
        rw [hm, Option.some.injEq] at hm'
        subst hm'
        rw [haccept, Option.some.injEq] at hl
        subst hl
        rw [ha, Option.some.injEq, Call.accept.injEq] at hc
        rw [← hc, hun] at hchecked
        contradiction
      have hunclaimed := h.unclaimed n hn hunchecked
      simp only [State.isUnclaimed, Bool.and_eq_true, Option.isNone_iff_eq_none] at hunclaimed
      rw [hpair r hr hri j a haccept ha, hunclaimed.1] at hsome
      contradiction

theorem Tracked.step {act : Act} (h : Tracked s i p g) (hformed : Formed s)
    (halone : alone p act = true) (hok : unrepeated i p s act = true)
    (hnext : next config s act = some t)
    : ∃ g', Tracked t i p g' := by
  cases act with
  | issue command =>
    cases hnext
    exact ⟨g, h.other (bne_iff_ne.mp halone)⟩
  | serverA j x =>
    by_cases hji : j = i
    . subst hji
      exact h.serverA_own hok hnext
    . exact ⟨g, h.serverA_other hji hnext⟩
  | arrive k requestId => exact ⟨g, h.arrive hnext⟩
  | serverB act => exact ⟨g, h.serverB hformed hok hnext⟩

/--
A first application is not answered `DUPLICATE`, as long as server-a repeats its request only when
server-b has not accepted it and does not accept it before the repetition.
-/
theorem first_not_duplicate {clock : Nat} {command : IssueCommand}
    (hreach : (application config).Run (fun _ _ => True) (init clock) s)
    (hidle : s.IsIdle (Application.pair command))
    (hrun : (application config).Run
      (fun u act => alone (Application.pair command) act = true
        ∧ unrepeated s.issues.length (Application.pair command) u act = true)
      (s.issue command) t)
    : ∀ g, t.issues[s.issues.length]? = some g → g.issue.pc.isDuplicate = false := by
  have hformed := formed hreach
  have htracked : Formed t ∧ ∃ g, Tracked t s.issues.length (Application.pair command) g := by
    apply hrun.invariant (I := fun t =>
      Formed t ∧ ∃ g, Tracked t s.issues.length (Application.pair command) g)
    . have hnext : next config s (.issue command) = some (s.issue command) := rfl
      exact ⟨hformed.step hnext, _, Tracked.start hformed hidle⟩
    . rintro u act v ⟨hu, g, hg⟩ ⟨halone, hok⟩ hnext
      exact ⟨hu.step hnext, hg.step hu halone hok hnext⟩
  obtain ⟨_, g, hg⟩ := htracked
  intro g' hg'
  rw [hg.issue, Option.some.injEq] at hg'
  rw [← hg']
  exact hg.original.outcome

def firstCommand : IssueCommand :=
  ⟨.ofInt 1, .ofInt 10, .ofInt 20⟩

theorem isIdle_init (clock : Nat) (p : Pair) : (init clock).IsIdle p where
  unclaimed := rfl
  issues g hg := by contradiction
  requests r hr := by contradiction
  accepts a ha := by contradiction

def admitted : List Act :=
  [.serverA 0 (.issue [] (.ok "" 0 0)), .serverA 0 (.client .admitted)]

def timeout : List Act :=
  [.serverB (.env (.tick 1000)), .serverA 0 (.client (.rejected (.other "AxiosError"))),
    .serverB (.env (.tick 50)), .serverA 0 (.client .elapsed)]

def concluded (result : IssueAcceptanceResult) : List Act :=
  [.serverA 0 (.client (.response (some (toIssueResponse result)))),
    .serverA 0 (.issue [] (.answered "r" 1050 result)), .serverA 0 (.issue [] (.ok "" 0 1))]

def lostRequest : List Act :=
  admitted ++ timeout ++ [.arrive 1 "b"] ++ List.replicate 5 (.serverB (.step 0 .ok))
    ++ concluded (IssueAcceptance.accepted "b")

def slowPublish : List Act :=
  admitted ++ [.arrive 0 "a"] ++ List.replicate 4 (.serverB (.step 0 .ok)) ++ timeout
    ++ [.arrive 1 "b", .serverB (.step 1 .ok)] ++ concluded (IssueAcceptance.duplicate "b")

def outcome? (s : State) (i : Nat) : Option IssueOutcome :=
  match s.issues[i]? with
  | some ⟨⟨_, .returned outcome⟩, _⟩ => some outcome
  | _ => none

theorem first_not_duplicate_retried
    : ∃ t, (application defaults).Run
          (fun u act => alone (Application.pair firstCommand) act = true
            ∧ unrepeated 0 (Application.pair firstCommand) u act = true)
          ((init 0).issue firstCommand) t
        ∧ (outcome? t 0).map IssueOutcome.downstreamStatus = some .accepted
        ∧ ∀ g, t.issues[0]? = some g → g.issue.pc.isDuplicate = false := by
  obtain ⟨t, hrun, ht⟩ := Machine.exists_run_of_exec (application defaults)
    (fun u act => alone (Application.pair firstCommand) act
      && unrepeated 0 (Application.pair firstCommand) u act)
    (fun u act => alone (Application.pair firstCommand) act = true
      ∧ unrepeated 0 (Application.pair firstCommand) u act = true)
    (fun _ _ h => Bool.and_eq_true_iff.mp h) lostRequest ((init 0).issue firstCommand)
    (fun t => (outcome? t 0).map IssueOutcome.downstreamStatus == some .accepted)
    (by decide +kernel)
  exact ⟨t, hrun, beq_iff_eq.mp ht, first_not_duplicate .refl (isIdle_init 0 _) hrun⟩

theorem first_duplicate
    : ¬∀ (config : ServerB.Config) (clock : Nat) (s t : State) (command : IssueCommand),
        (application config).Run (fun _ _ => True) (init clock) s
          → s.IsIdle (Application.pair command)
          → (application config).Run (fun _ act => alone (Application.pair command) act = true)
            (s.issue command) t
          → ∀ g, t.issues[s.issues.length]? = some g → g.issue.pc.isDuplicate = false := by
  intro h
  obtain ⟨t, hrun, ht⟩ := Machine.exists_run_of_exec (application defaults)
    (fun _ act => alone (Application.pair firstCommand) act)
    (fun _ act => alone (Application.pair firstCommand) act = true) (fun _ _ h => h) slowPublish
    ((init 0).issue firstCommand)
    (fun t => (t.issues[0]?).any fun g => g.issue.pc.isDuplicate
      && (outcome? t 0).any fun outcome => outcome.issueRequest.id == some 1)
    (by decide +kernel)
  obtain ⟨g, hg, hdup⟩ := (Option.any_eq_true ..).mp ht
  rw [Bool.and_eq_true] at hdup
  have hfirst := h defaults 0 (init 0) t firstCommand .refl (isIdle_init 0 _) hrun g hg
  rw [hdup.1] at hfirst
  contradiction

end Step

end System.Application
