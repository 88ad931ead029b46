import ForgeRelay.Service.RateLimit

/-!
# Attempts to authenticate

Runs in which AUTHs come from one address. Twenty failures within 60 seconds block it only if they
are counted in one window; and a block lasts longer than 60 seconds when enough AUTHs are refused
while it lasts, whatever their tokens.
-/

namespace ForgeRelay

open Program

/-- An AUTH from this address. -/
def IsAuthFrom (ip peer : Bytes) (frame : FrFrame) : Prop :=
  FrMsgType.ofByte frame.type = some .auth ∧ ipOf peer = ip

instance (ip peer : Bytes) (frame : FrFrame) : Decidable (IsAuthFrom ip peer frame) :=
  inferInstanceAs (Decidable (_ ∧ _))

/-- The clock of a request. -/
def ClientEvent.time : ClientEvent → Int64
  | .request _ env _ _ => env.monotonic
  | _ => 0

def ClientEvent.authTime? (ip : Bytes) : ClientEvent → Option Int64
  | .request _ env peer frame => if IsAuthFrom ip peer frame then some env.monotonic else none
  | _ => none

/-- The clock does not go back between the AUTHs from this address. -/
def ForwardClock (ip : Bytes) (events : List ClientEvent) : Prop :=
  (∀ now ∈ events.filterMap (·.authTime? ip), SteadyClock now) ∧
    (events.filterMap (·.authTime? ip)).Pairwise (· ≤ ·)

instance (ip : Bytes) (events : List ClientEvent) : Decidable (ForwardClock ip events) :=
  @instDecidableAnd _ _ (List.decidableBAll _ _) inferInstance

section

variable {ip : Bytes} {events later : List ClientEvent}

theorem ForwardClock.left (h : ForwardClock ip (events ++ later)) : ForwardClock ip events := by
  rw [ForwardClock, List.filterMap_append] at h
  exact ⟨fun now hnow => h.1 now (List.mem_append_left _ hnow), (List.pairwise_append.mp h.2).1⟩

theorem ForwardClock.right (h : ForwardClock ip (events ++ later)) : ForwardClock ip later := by
  rw [ForwardClock, List.filterMap_append] at h
  exact ⟨fun now hnow => h.1 now (List.mem_append_right _ hnow), (List.pairwise_append.mp h.2).2.1⟩

theorem ForwardClock.clock {e : ClientEvent} {now : Int64} (h : ForwardClock ip events)
    (he : e ∈ events) (hnow : e.authTime? ip = some now) : SteadyClock now :=
  h.1 now (List.mem_filterMap.mpr ⟨e, he, hnow⟩)

theorem ForwardClock.again {e : ClientEvent} {now : Int64} (h : ForwardClock ip (events ++ [e]))
    (hnow : e.authTime? ip = some now) : ForwardClock ip (events ++ [e, e]) := by
  have htimes : [e].filterMap (·.authTime? ip) = [now] := by simp [hnow]
  have htwice : [e, e].filterMap (·.authTime? ip) = [now, now] := by simp [hnow]
  rw [ForwardClock, List.filterMap_append, htimes] at h
  rw [ForwardClock, List.filterMap_append, htwice]
  refine ⟨fun now' hmem => h.1 now' ?_, List.pairwise_append.mpr ⟨(List.pairwise_append.mp h.2).1,
    by simp, fun a ha b hb => (List.pairwise_append.mp h.2).2.2 a ha b ?_⟩⟩
  · simpa using hmem
  · simpa using hb

theorem ForwardClock.le {e e' : ClientEvent} {now now' : Int64}
    (h : ForwardClock ip (events ++ later)) (he : e ∈ events)
    (hnow : e.authTime? ip = some now) (he' : e' ∈ later)
    (hnow' : e'.authTime? ip = some now') : now ≤ now' := by
  rw [ForwardClock, List.filterMap_append] at h
  exact (List.pairwise_append.mp h.2).2.2 now (List.mem_filterMap.mpr ⟨e, he, hnow⟩) now'
    (List.mem_filterMap.mpr ⟨e', he', hnow'⟩)

end

namespace Clients

/-- An AUTH from this address, made while it is blocked. -/
def refuses (ip : Bytes) (c : Clients) : ClientEvent → Bool
  | .request connId env peer frame =>
    (c.sessions connId).isSome && decide (IsAuthFrom ip peer frame) &&
      decide (env.monotonic < (c.service.stat ip).blockedUntil)
  | _ => false

/-- An AUTH from this address whose token verification fails. -/
def fails (sha : Sha256) (ip : Bytes) (c : Clients) : ClientEvent → Bool
  | .request connId env peer frame =>
    (c.sessions connId).isSome && decide (IsAuthFrom ip peer frame) &&
      !decide (env.monotonic < (c.service.stat ip).blockedUntil) &&
      failsVerification sha env.call.now c.service.auth frame
  | _ => false

/-- The events of a run, each with what it meets. -/
def passes (sha : Sha256) : Clients → List ClientEvent → List (Clients × ClientEvent)
  | _, [] => []
  | c, e :: events => (c, e) :: passes sha (c.next sha e) events

/-- The event renews the block of the address. -/
def Renews (sha : Sha256) (ip : Bytes) (p : Clients × ClientEvent) : Prop :=
  (p.1.refuses ip p.2 || p.1.fails sha ip p.2) = true ∧ (p.1.service.stat ip).Full p.2.time

/-- How many token verifications for this address have failed since. -/
def failuresSince (sha : Sha256) (ip : Bytes) (since : Int) (c : Clients)
    (events : List ClientEvent) : Nat :=
  (c.passes sha events).countP fun p => p.1.fails sha ip p.2 && decide (since ≤ p.2.time.toInt)

variable {sha : Sha256} {ip : Bytes} {c : Clients} {e : ClientEvent} {events : List ClientEvent}

private theorem passes_append (c : Clients) (before after : List ClientEvent) :
    c.passes sha (before ++ after) =
      c.passes sha before ++ (c.run sha before).passes sha after := by
  induction before generalizing c with
  | nil => rfl
  | cons e before ih => exact congrArg _ (ih (c.next sha e))

private theorem next_request {connId : Nat} {env : RequestEnv} {peer : Bytes} {frame : FrFrame}
    {session : ClientSession} (hsession : c.sessions connId = some session) :
    (c.next sha (.request connId env peer frame)).service =
      ((handle sha env connId peer session frame).run c.service).2 := by
  simp only [next, hsession]
  rcases (handle sha env connId peer session frame).run c.service with
    ⟨r | ⟨result, session'⟩, s'⟩ <;> rfl

private theorem ipStats_stable (sha : Sha256) (ip : Bytes) (stat : Option IpStat) :
    Service.Stable sha fun s => s.ipStats ip = stat :=
  ⟨id, id, fun _ => ⟨fun h _ => h, fun h _ => h, fun h _ => h, fun h _ => h, id⟩⟩

private theorem handle_statOther {env : RequestEnv} {connId : Nat} {peer : Bytes}
    {session : ClientSession} {frame : FrFrame} {s : Service}
    (hother : ¬ IsAuthFrom ip peer frame) :
    ((handle sha env connId peer session frame).run s).2.stat ip = s.stat ip := by
  by_cases htype : FrMsgType.ofByte frame.type = some .auth
  · rcases handle_auth_state sha env connId peer session s htype with h | h
    · rw [h]
    · rw [h]
      exact s.stat_noteFailure_of_ne env fun h => hother ⟨htype, h⟩
  · have hkeeps : Keeps (fun s' => s'.ipStats ip = s.ipStats ip)
        (handle sha env connId peer session frame) :=
      handle_keeps ⟨id, id, fun _ => ⟨fun h _ => h, fun h _ => h, fun h _ => h, fun h _ => h, id⟩⟩
        fun h => absurd h htype
    exact congrArg (·.getD ⟨0, 0, 0⟩) (hkeeps s rfl)

variable (sha c) in
private theorem next_stat (hclock : ∀ now, e.authTime? ip = some now → SteadyClock now) :
    (c.next sha e).service.stat ip =
      if c.refuses ip e || c.fails sha ip e then (c.service.stat ip).note e.time
      else c.service.stat ip := by
  cases e with
  | connect connId =>
    simp only [next]
    split <;> rfl
  | resume key =>
    have hstable := ipStats_stable sha ip (c.service.ipStats ip)
    have hkeeps := handleGetContinue_keeps (P := fun s => s.ipStats ip = c.service.ipStats ip)
      hstable.downloads key
    exact congrArg (·.getD ⟨0, 0, 0⟩) (hkeeps c.service rfl)
  | maintenance env => rfl
  | disconnect connId => rfl
  | request connId env peer frame =>
    cases hsession : c.sessions connId with
    | none => simp [next, refuses, fails, hsession]
    | some session =>
      rw [next_request hsession]
      by_cases hfrom : IsAuthFrom ip peer frame
      · have hnow : SteadyClock env.monotonic := hclock _ (if_pos hfrom)
        obtain ⟨htype, rfl⟩ := hfrom
        have hfrom : IsAuthFrom (ipOf peer) peer frame := ⟨htype, rfl⟩
        by_cases hblocked : env.monotonic < (c.service.stat (ipOf peer)).blockedUntil
        · rw [handle_blocked sha connId session hnow htype hblocked, c.service.stat_noteFailure]
          simp [refuses, hsession, hfrom, hblocked, ClientEvent.time]
        · cases hfails : failsVerification sha env.call.now c.service.auth frame with
          | true =>
            obtain ⟨what, -, hrun⟩ := handle_failsVerification connId session
              htype hblocked hfails
            rw [hrun, c.service.stat_noteFailure]
            simp [fails, hsession, hfrom, hblocked, hfails, ClientEvent.time]
          | false =>
            rw [handle_passed htype hblocked hfails]
            simp [refuses, fails, hblocked, hfails]
      · rw [handle_statOther hfrom]
        simp [refuses, fails, hfrom]

private theorem authTime_of_counted (h : (c.refuses ip e || c.fails sha ip e) = true) :
    e.authTime? ip = some e.time := by
  cases e with
  | request connId env peer frame =>
    have hfrom : IsAuthFrom ip peer frame := by
      simp only [refuses, fails, Bool.or_eq_true, Bool.and_eq_true, decide_eq_true_eq] at h
      rcases h with h | h
      · exact h.1.2
      · exact h.1.1.2
    exact if_pos hfrom
  | _ => cases h

variable (sha c) in
private theorem next_blockedUntil (hclock : ∀ now, e.authTime? ip = some now → SteadyClock now) :
    (Renews sha ip (c, e) ∧
      ((c.next sha e).service.stat ip).blockedUntil.toInt = e.time.toInt + 60) ∨
    (¬ Renews sha ip (c, e) ∧
      ((c.next sha e).service.stat ip).blockedUntil = (c.service.stat ip).blockedUntil) := by
  rw [next_stat sha c hclock]
  by_cases hcounted : (c.refuses ip e || c.fails sha ip e) = true
  · rw [if_pos hcounted, IpStat.note_blockedUntil]
    by_cases hfull : (c.service.stat ip).Full e.time
    · rw [if_pos hfull]
      exact .inl ⟨⟨hcounted, hfull⟩, (hclock _ (authTime_of_counted hcounted)).add_block⟩
    · rw [if_neg hfull]
      exact .inr ⟨fun h => hfull h.2, rfl⟩
  · rw [if_neg hcounted]
    exact .inr ⟨fun h => hcounted h.1, rfl⟩

private theorem mem_passes {p : Clients × ClientEvent} (h : p ∈ c.passes sha events) :
    p.2 ∈ events := by
  induction events generalizing c with
  | nil => cases h
  | cons e events ih =>
    rcases List.mem_cons.mp h with rfl | h
    · exact List.mem_cons_self
    · exact List.mem_cons_of_mem _ (ih h)

private theorem blocked_iff (sha : Sha256) (store : Store) (auth : AuthDb) {now : Int}
    (hnow : 0 ≤ now) (hsteady : ForwardClock ip events) :
    now < (((start store auth).run sha events).service.stat ip).blockedUntil.toInt ↔
      ∃ p ∈ (start store auth).passes sha events, Renews sha ip p ∧ now < p.2.time.toInt + 60 := by
  induction events using List.reverseRecOn with
  | nil =>
    have hnone : ¬ now < (0 : Int64).toInt := Int.not_lt.mpr hnow
    exact ⟨fun h => absurd h hnone, fun ⟨p, hp, _⟩ => by cases hp⟩
  | append_singleton events e ih =>
    specialize ih hsteady.left
    have hclock : ∀ now, e.authTime? ip = some now → SteadyClock now := fun now h =>
      hsteady.clock (List.mem_append_right _ (List.mem_singleton.mpr rfl)) h
    rw [run_append, passes_append]
    change now < (((((start store auth).run sha events).next sha e).service.stat ip)
      |>.blockedUntil).toInt ↔ _
    rcases next_blockedUntil sha ((start store auth).run sha events) hclock with
      ⟨hrenews, hblock⟩ | ⟨hnot, hblock⟩
    · rw [hblock]
      refine ⟨fun h => ⟨_, List.mem_append_right _ List.mem_cons_self, hrenews, h⟩, ?_⟩
      rintro ⟨p, hp, hp', hlater⟩
      rcases List.mem_append.mp hp with hp | hp
      · have hle := hsteady.le (mem_passes hp) (authTime_of_counted hp'.1)
          (List.mem_singleton.mpr rfl) (authTime_of_counted hrenews.1)
        rw [Int64.le_iff_toInt_le] at hle
        omega
      · obtain rfl := List.mem_singleton.mp hp
        exact hlater
    · rw [hblock, ih]
      refine ⟨fun ⟨p, hp, h⟩ => ⟨p, List.mem_append_left _ hp, h⟩, fun ⟨p, hp, h⟩ => ⟨p, ?_, h⟩⟩
      rcases List.mem_append.mp hp with hp | hp
      · exact hp
      · obtain rfl := List.mem_singleton.mp hp
        exact absurd h.1 hnot

/-- A block lasts, since none that follows ends earlier. -/
private theorem run_blocked (sha : Sha256) {deadline : Int}
    (h : deadline ≤ (c.service.stat ip).blockedUntil.toInt)
    (hlater : ∀ e ∈ events, ∀ now, e.authTime? ip = some now →
      SteadyClock now ∧ deadline ≤ now.toInt + 60) :
    deadline ≤ ((c.run sha events).service.stat ip).blockedUntil.toInt := by
  induction events generalizing c with
  | nil => exact h
  | cons e events ih =>
    refine ih ?_ fun e' he' => hlater e' (List.mem_cons_of_mem _ he')
    rcases next_blockedUntil sha c fun now hnow => (hlater e List.mem_cons_self now hnow).1 with
      ⟨hrenews, hblock⟩ | ⟨-, hblock⟩
    · rw [hblock]
      exact (hlater e List.mem_cons_self _ (authTime_of_counted hrenews.1)).2
    · rw [hblock]
      exact h

/-- The AUTH is refused by the rate limit, whatever its token. -/
def RefusesAuth (sha : Sha256) (c : Clients) (connId : Nat) (env : RequestEnv) (peer : Bytes)
    (frame : FrFrame) : Prop :=
  ∃ session, c.sessions connId = some session ∧
    c.reply sha connId env peer frame = some (.ok (authFailed session frame limitText)) ∧
    (c.next sha (.request connId env peer frame)).sessions connId =
      some { session with authFailures := session.authFailures + 1 }

section

variable {connId : Nat} {env : RequestEnv} {peer : Bytes} {frame : FrFrame}
  {session : ClientSession}

private theorem next_session {s : Service} {result : HandleResult} {session' : ClientSession}
    (hsession : c.sessions connId = some session)
    (hrun : (handle sha env connId peer session frame).run c.service =
      (.ok (result, session'), s)) :
    (c.next sha (.request connId env peer frame)).sessions connId = some session' := by
  simp only [next, hsession, hrun, Function.update_self]

variable (sha) in
private theorem refusesAuth_of_blocked (hclock : SteadyClock env.monotonic)
    (hfrom : IsAuthFrom ip peer frame) (hsession : c.sessions connId = some session)
    (hblocked : env.monotonic < (c.service.stat ip).blockedUntil) :
    RefusesAuth sha c connId env peer frame := by
  obtain ⟨htype, rfl⟩ := hfrom
  have hrun := handle_blocked sha connId session hclock htype hblocked
  refine ⟨session, hsession, ?_, next_session hsession hrun⟩
  rw [reply_eq hsession, hrun]
  rfl

private theorem fails_iff (hfrom : IsAuthFrom ip peer frame)
    (hsession : c.sessions connId = some session) :
    c.fails sha ip (.request connId env peer frame) = true ↔
      ¬ env.monotonic < (c.service.stat ip).blockedUntil ∧
        failsVerification sha env.call.now c.service.auth frame = true := by
  simp [fails, hfrom, hsession]

private theorem not_refusesAuth_of_fails (hfrom : IsAuthFrom ip peer frame)
    (hopen : ¬ env.monotonic < (c.service.stat ip).blockedUntil)
    (hfails : failsVerification sha env.call.now c.service.auth frame = true) :
    ¬ RefusesAuth sha c connId env peer frame := by
  rintro ⟨session, hsession, hreply, -⟩
  obtain ⟨htype, rfl⟩ := hfrom
  obtain ⟨what, hne, hrun⟩ := handle_failsVerification connId session
    htype hopen hfails
  rw [reply_eq hsession, hrun] at hreply
  refine hne (authFailed_injective session frame ?_)
  exact Except.ok.inj (Option.some.inj hreply)

private theorem refusesAuth_of_renews {later : List ClientEvent} {connId' : Nat} {env' : RequestEnv}
    {peer' : Bytes} {frame' : FrFrame} (hrenews : Renews sha ip (c, e))
    (hsteady : ForwardClock ip ([e] ++ (later ++ [.request connId' env' peer' frame'])))
    (hfrom : IsAuthFrom ip peer' frame') (hbefore : env'.monotonic.toInt < e.time.toInt + 60)
    (hsome : (((c.next sha e).run sha later).sessions connId').isSome = true) :
    RefusesAuth sha ((c.next sha e).run sha later) connId' env' peer' frame' := by
  have hat : e.authTime? ip = some e.time := authTime_of_counted hrenews.1
  have hlast : ClientEvent.request connId' env' peer' frame' ∈
      [e] ++ (later ++ [.request connId' env' peer' frame']) := by simp
  obtain ⟨-, hblock⟩ := (next_blockedUntil sha c fun now hnow =>
    hsteady.clock (List.mem_append_left _ (List.mem_singleton.mpr rfl)) hnow).resolve_right
      fun h => h.1 hrenews
  have hblocked := run_blocked sha (le_of_eq hblock.symm)
    fun e' he' now hnow => by
      have hle := hsteady.le (List.mem_singleton.mpr rfl) hat (List.mem_append_left _ he') hnow
      rw [Int64.le_iff_toInt_le] at hle
      exact ⟨hsteady.clock (List.mem_append_right _ (List.mem_append_left _ he')) hnow, by omega⟩
  obtain ⟨session', hsession'⟩ := Option.isSome_iff_exists.mp hsome
  refine refusesAuth_of_blocked sha (hsteady.clock hlast (if_pos hfrom)) hfrom hsession' ?_
  rw [Int64.lt_iff_toInt_lt]
  omega

/-- After a failed verification that does not renew the block, the same AUTH gets to the
verification again. -/
private theorem not_refusesAuth_again (hfrom : IsAuthFrom ip peer frame)
    (hnow : SteadyClock env.monotonic)
    (hfails : c.fails sha ip (.request connId env peer frame) = true)
    (hnot : ¬ Renews sha ip (c, .request connId env peer frame)) :
    let after := c.next sha (.request connId env peer frame)
    (after.sessions connId).isSome = true ∧ ¬ RefusesAuth sha after connId env peer frame := by
  intro after
  have hsome : (c.sessions connId).isSome = true := by
    simp only [fails, Bool.and_eq_true] at hfails
    exact hfails.1.1.1
  obtain ⟨session, hsession⟩ := Option.isSome_iff_exists.mp hsome
  obtain ⟨hopen, hverify⟩ := (fails_iff hfrom hsession).mp hfails
  obtain ⟨what, -, hrun⟩ := handle_failsVerification connId session
    hfrom.1 (by rwa [hfrom.2]) hverify
  have hauth : after.service.auth = c.service.auth := by
    rw [next_request hsession, hrun]
    rfl
  have hclock : ∀ now, (ClientEvent.request connId env peer frame).authTime? ip = some now →
      SteadyClock now := fun now h => by
    obtain rfl : env.monotonic = now := Option.some.inj ((if_pos hfrom).symm.trans h)
    exact hnow
  obtain ⟨-, hsame⟩ := (next_blockedUntil sha c hclock).resolve_left fun h => hnot h.1
  refine ⟨Option.isSome_iff_exists.mpr ⟨_, next_session hsession hrun⟩, ?_⟩
  exact not_refusesAuth_of_fails hfrom (by rwa [hsame]) (by rwa [hauth])

/-- When the token verification of 20 AUTHs from an address has failed within 60 seconds, every AUTH
from the address in the 60 seconds after the last of them is refused if and only if the last of them
finds 19 failures counted in a window that is open. -/
theorem twenty_failures_refuse_iff (store : Store) (auth : AuthDb) (earlier : List ClientEvent)
    (hsteady : ForwardClock ip (earlier ++ [.request connId env peer frame]))
    (hfails : ((start store auth).run sha earlier).fails sha ip
      (.request connId env peer frame) = true) :
    let c := (start store auth).run sha earlier
    let twenty := 19 ≤ failuresSince sha ip (env.monotonic.toInt - 60) (start store auth) earlier
    (twenty → ∀ later connId' env' peer' frame',
      ForwardClock ip (earlier ++ ([.request connId env peer frame] ++ (later ++
        [.request connId' env' peer' frame']))) →
      IsAuthFrom ip peer' frame' → env'.monotonic.toInt < env.monotonic.toInt + 60 →
      let after := (c.next sha (.request connId env peer frame)).run sha later
      (after.sessions connId').isSome = true → RefusesAuth sha after connId' env' peer' frame') ↔
    (twenty → (c.service.stat ip).Full env.monotonic) := by
  intro c twenty
  have hfrom : IsAuthFrom ip peer frame := by
    simp only [fails, Bool.and_eq_true, decide_eq_true_eq] at hfails
    exact hfails.1.1.2
  refine imp_congr_right fun _ => ⟨fun hrefuses => ?_, fun hfull => ?_⟩
  · -- The same AUTH once more, at the same time.
    by_contra hnot
    have hnow : SteadyClock env.monotonic :=
      hsteady.clock (List.mem_append_right _ (List.mem_singleton.mpr rfl)) (if_pos hfrom)
    obtain ⟨hopen, hagain⟩ := not_refusesAuth_again hfrom hnow hfails fun h => hnot h.2
    refine hagain (hrefuses [] connId env peer frame (hsteady.again (if_pos hfrom)) hfrom ?_ hopen)
    omega
  · intro later connId' env' peer' frame' hsteady' hfrom' hbefore after hopen
    exact refusesAuth_of_renews ⟨by rw [hfails, Bool.or_true], hfull⟩ hsteady'.right hfrom' hbefore
      hopen

end

end Clients

def sampleIp : Bytes := ascii "10.0.0.7"

def rootToken : Bytes := tokenText (List.replicate 32 1)

/-- An AUTH at this time from one address. -/
def authAt (connId : Nat) (now : Int64) (token : Bytes) : ClientEvent :=
  .request connId (sampleRequestEnv now) (ascii "10.0.0.7:4000")
    (sampleFrame .auth (encodeAuthReq ⟨token⟩))

/-- Four of them on each of these connections. -/
def fourEach (connIds : List Nat) (now : Int64) (token : Bytes) : List ClientEvent :=
  connIds.flatMap fun connId => List.replicate 4 (authAt connId now token)

def openMany : List ClientEvent := (List.range 12).map .connect

/-- Nineteen wrong tokens at once. -/
def burst : List ClientEvent :=
  openMany ++ fourEach [0, 1, 2, 3] 1 (ascii "x") ++ List.replicate 3 (authAt 4 1 (ascii "x"))

abbrev startRoot : Clients := .start .empty (rootAuth 1)

/-- The twentieth blocks the address. -/
theorem twenty_failures_refuse_sample :
    Clients.RefusesAuth prefixSha
      ((startRoot.run prefixSha burst).next prefixSha (authAt 4 1 (ascii "x"))) 5
      (sampleRequestEnv 60) (ascii "10.0.0.7:4001")
      (sampleFrame .auth (encodeAuthReq ⟨rootToken⟩)) := by
  have hsteady : ForwardClock sampleIp (burst ++ [authAt 4 1 (ascii "x")]) := by decide +kernel
  have hfails : (startRoot.run prefixSha burst).fails prefixSha sampleIp
      (authAt 4 1 (ascii "x")) = true := by decide +kernel
  have hrefuses := (Clients.twenty_failures_refuse_iff .empty (rootAuth 1) burst hsteady
    hfails).mpr fun _ => by decide +kernel
  exact hrefuses (by decide +kernel) [] 5 (sampleRequestEnv 60) (ascii "10.0.0.7:4001")
    (sampleFrame .auth (encodeAuthReq ⟨rootToken⟩)) (by decide +kernel) (by decide +kernel)
    (by decide +kernel) (by decide +kernel)

/-- One failure, and eighteen at the end of the window which it has opened and one after that. -/
def straddle : List ClientEvent :=
  openMany ++ [authAt 0 1 (ascii "x")] ++ fourEach [1, 2, 3, 4] 61 (ascii "x") ++
    List.replicate 2 (authAt 5 61 (ascii "x")) ++ [authAt 5 62 (ascii "x")]

/-- The last twenty of these failures are within two seconds, and the address is not blocked. -/
theorem twenty_failures_accepted :
    let before := startRoot.run prefixSha straddle
    let after := before.next prefixSha (authAt 6 62 (ascii "x"))
    let frame := sampleFrame .auth (encodeAuthReq ⟨rootToken⟩)
    ForwardClock sampleIp (straddle ++ [authAt 6 62 (ascii "x"), authAt 6 62 rootToken]) ∧
      before.fails prefixSha sampleIp (authAt 6 62 (ascii "x")) = true ∧
      Clients.failuresSince prefixSha sampleIp 2 startRoot straddle = 19 ∧
      after.reply prefixSha 6 (sampleRequestEnv 62) (ascii "10.0.0.7:4000") frame =
        some (.ok (authAccepted frame ⟨ascii "root", 2⟩)) := by
  decide +kernel

namespace Clients

variable {sha : Sha256} {ip : Bytes} {c : Clients} {events : List ClientEvent} {connId : Nat}
  {env : RequestEnv} {peer : Bytes} {frame : FrFrame} {session : ClientSession}

/-- An AUTH from the address at this time or later has a token that is verified. -/
def verifies (sha : Sha256) (ip : Bytes) (since : Int64) (c : Clients) : ClientEvent → Bool
  | .request _ env peer frame =>
    !decide (IsAuthFrom ip peer frame ∧ since ≤ env.monotonic) ||
      (authResult sha env.call.now c.service.auth frame).isOk
  | _ => true

/-- From this time on, the token of every AUTH from the address is one that is verified. -/
def ValidFrom (sha : Sha256) (ip : Bytes) (since : Int64) (c : Clients)
    (events : List ClientEvent) : Prop :=
  ∀ p ∈ c.passes sha events, p.1.verifies sha ip since p.2 = true

instance (since : Int64) : Decidable (ValidFrom sha ip since c events) :=
  inferInstanceAs (Decidable (∀ p ∈ c.passes sha events, p.1.verifies sha ip since p.2 = true))

private theorem verifies_authResult {since : Int64} (hfrom : IsAuthFrom ip peer frame)
    (htime : since ≤ env.monotonic)
    (h : c.verifies sha ip since (.request connId env peer frame) = true) :
    ∃ ok, authResult sha env.call.now c.service.auth frame = .ok ok := by
  simp only [verifies, Bool.or_eq_true, Bool.not_eq_true', decide_eq_false_iff_not] at h
  have hok := h.resolve_left fun hnot => hnot ⟨hfrom, htime⟩
  cases hresult : authResult sha env.call.now c.service.auth frame with
  | ok ok => exact ⟨ok, rfl⟩
  | error e =>
    rw [hresult] at hok
    cases hok

/-- The AUTH authenticates the client of the connection, and is answered with OK if the user's name
fits the reply. -/
def AcceptsAuth (sha : Sha256) (c : Clients) (connId : Nat) (env : RequestEnv) (peer : Bytes)
    (frame : FrFrame) : Prop :=
  ∃ session ok, c.sessions connId = some session ∧
    authResult sha env.call.now c.service.auth frame = .ok ok ∧
    (ok.username.length ≤ maxStringLen →
      c.reply sha connId env peer frame = some (.ok (authAccepted frame ok))) ∧
    (c.next sha (.request connId env peer frame)).sessions connId = some (session.authenticate ok)

private theorem not_acceptsAuth_of_blocked (hclock : SteadyClock env.monotonic)
    (hfrom : IsAuthFrom ip peer frame)
    (hblocked : env.monotonic < (c.service.stat ip).blockedUntil) :
    ¬ AcceptsAuth sha c connId env peer frame := by
  rintro ⟨session, ok, hsession, -, -, hnext⟩
  obtain ⟨session', hsession', -, hnext'⟩ := refusesAuth_of_blocked sha hclock hfrom
    hsession hblocked
  rw [hnext] at hnext'
  exact absurd (congrArg ClientSession.authFailures (Option.some.inj hnext')).symm
    (Nat.succ_ne_zero _)

private theorem acceptsAuth_of_open {ok : AuthOk} (hfrom : IsAuthFrom ip peer frame)
    (hsession : c.sessions connId = some session)
    (hresult : authResult sha env.call.now c.service.auth frame = .ok ok)
    (hopen : ¬ env.monotonic < (c.service.stat ip).blockedUntil) :
    AcceptsAuth sha c connId env peer frame := by
  obtain ⟨htype, rfl⟩ := hfrom
  obtain ⟨result, hrun, hreply⟩ := handle_verified connId session htype
    (by rw [verifyAuth_open hopen, hresult])
  refine ⟨session, ok, hsession, hresult, fun hlen => ?_, next_session hsession hrun⟩
  rw [reply_eq hsession, hrun, ← hreply hlen]
  rfl

private theorem not_fails_of_valid {since : Int64} {p : Clients × ClientEvent}
    (h : ValidFrom sha ip since c events) (hp : p ∈ c.passes sha events)
    (htime : since ≤ p.2.time) : p.1.fails sha ip p.2 = false := by
  obtain ⟨c', e⟩ := p
  cases e with
  | request connId env peer frame =>
    by_contra hfails
    simp only [fails, Bool.not_eq_false, Bool.and_eq_true, decide_eq_true_eq] at hfails
    obtain ⟨⟨⟨-, hfrom⟩, -⟩, hverify⟩ := hfails
    obtain ⟨ok, hresult⟩ := verifies_authResult hfrom htime (h _ hp)
    obtain ⟨what, herror, -⟩ := failsVerification_authResult hverify
    rw [hresult] at herror
    cases herror
  | _ => rfl

/-- When from a time on the token of every AUTH from an address is one that is verified, an AUTH 60
seconds later or more succeeds if and only if in the 60 seconds before it none was refused as the
20th which its window counts. -/
theorem valid_token_accepted_iff {since : Int64} (store : Store) (auth : AuthDb)
    (hsteady : ForwardClock ip (events ++ [.request connId env peer frame]))
    (hvalid : ValidFrom sha ip since (start store auth)
      (events ++ [.request connId env peer frame]))
    (hfrom : IsAuthFrom ip peer frame)
    (hopen : (((start store auth).run sha events).sessions connId).isSome = true)
    (hlater : since.toInt + 60 ≤ env.monotonic.toInt) :
    AcceptsAuth sha ((start store auth).run sha events) connId env peer frame ↔
      ∀ p ∈ (start store auth).passes sha events, p.1.refuses ip p.2 = true →
        (p.1.service.stat ip).Full p.2.time → p.2.time.toInt + 60 ≤ env.monotonic.toInt := by
  have hlast : ClientEvent.request connId env peer frame ∈
      events ++ [.request connId env peer frame] := by simp
  have hnow : SteadyClock env.monotonic := hsteady.clock hlast (if_pos hfrom)
  have hblocked := blocked_iff sha store auth hnow.1 hsteady.left
  rw [← Int64.lt_iff_toInt_lt] at hblocked
  obtain ⟨session, hsession⟩ := Option.isSome_iff_exists.mp hopen
  constructor
  · intro haccepts p hp hrefused hfull
    by_contra hwithin
    refine not_acceptsAuth_of_blocked hnow hfrom (hblocked.mpr ⟨p, hp, ⟨?_, hfull⟩, ?_⟩) haccepts
    · rw [hrefused, Bool.true_or]
    · omega
  · intro hquiet
    have hvalid' := hvalid
    rw [ValidFrom, passes_append] at hvalid
    obtain ⟨ok, hresult⟩ := verifies_authResult hfrom (by rw [Int64.le_iff_toInt_le]; omega)
      (hvalid _ (List.mem_append_right _ List.mem_cons_self))
    refine acceptsAuth_of_open hfrom hsession hresult fun hrefused => ?_
    obtain ⟨p, hp, ⟨hcounted, hfull⟩, hwithin⟩ := hblocked.mp hrefused
    have hverified : p.1.fails sha ip p.2 = false := by
      refine not_fails_of_valid hvalid' ?_ (by rw [Int64.le_iff_toInt_le]; omega)
      rw [passes_append]
      exact List.mem_append_left _ hp
    rw [hverified, Bool.or_false] at hcounted
    have hover := hquiet p hp hcounted hfull
    omega

end Clients

/-- The address is blocked at 1, and after 61 a valid token is accepted. -/
theorem valid_token_accepted_sample :
    Clients.AcceptsAuth prefixSha (startRoot.run prefixSha (burst ++ [authAt 4 1 (ascii "x")])) 5
      (sampleRequestEnv 62) (ascii "10.0.0.7:4000")
      (sampleFrame .auth (encodeAuthReq ⟨rootToken⟩)) := by
  have hsteady : ForwardClock sampleIp
      (burst ++ [authAt 4 1 (ascii "x")] ++ [authAt 5 62 rootToken]) := by
    decide +kernel
  have hvalid : Clients.ValidFrom prefixSha sampleIp 2 startRoot
      (burst ++ [authAt 4 1 (ascii "x")] ++ [authAt 5 62 rootToken]) := by
    decide +kernel
  exact (Clients.valid_token_accepted_iff .empty (rootAuth 1) hsteady hvalid (by decide +kernel)
    (by decide +kernel) (by decide +kernel)).mpr (by decide +kernel)

/-- Twenty AUTHs with a valid token while the address is blocked. -/
def retries : List ClientEvent :=
  burst ++ [authAt 4 1 (ascii "x")] ++ fourEach [5, 6, 7, 8, 9] 50 rootToken

/-- They have prolonged the block. -/
theorem valid_token_refused :
    let frame := sampleFrame .auth (encodeAuthReq ⟨rootToken⟩)
    ForwardClock sampleIp (retries ++ [authAt 10 62 rootToken]) ∧
      Clients.ValidFrom prefixSha sampleIp 2 startRoot (retries ++ [authAt 10 62 rootToken]) ∧
      ((startRoot.run prefixSha retries).sessions 10).isSome = true ∧
      (startRoot.run prefixSha retries).reply prefixSha 10 (sampleRequestEnv 62)
          (ascii "10.0.0.7:4000") frame = some (.ok (authFailed .fresh frame limitText)) := by
  decide +kernel

end ForgeRelay
