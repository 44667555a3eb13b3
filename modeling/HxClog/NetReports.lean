import HxClog.NetSink

/-!
# Reports of dropped lines

A line that the network sink drops is reported to the error handler at most once in every
retry window. A datagram that cannot be sent is not reported, and the window of a connection
that could not be opened starts before the attempt, not with the report.
-/

namespace HxClog

open C Transition

def AddrOutcome.opens (proto : NetProto) (a : AddrOutcome) : Bool :=
  a.hasSocket && (proto = .udp || netConnectTcp a.connect)

/-- Whether `net_open` gets a socket. -/
def opensAny (proto : NetProto) : Option (List AddrOutcome) → Bool
  | none => false
  | some addrs => addrs.any (AddrOutcome.opens proto)

namespace NetSink

/-! ## One call -/

variable {n n' : NetSink} {k : NetCall} {rc : Rc}

/-- There is a connection, or one is opened. -/
def Ready (n : NetSink) (k : NetCall) : Prop :=
  n.connected = true ∨ netRetrySecs ≤ k.now - n.lastAttemptSec ∧ opensAny n.proto k.addrs = true

/-- What a call does to the connection and tells the error handler. -/
inductive Told (n : NetSink) (k : NetCall) (n' : NetSink) : Rc → Prop where
  | waits : n.connected = false → k.now - n.lastAttemptSec < netRetrySecs → n' = n → Told n k n' .platform
  | refused : n.connected = false → netRetrySecs ≤ k.now - n.lastAttemptSec → opensAny n.proto k.addrs = false →
      n'.connected = false → n'.lastAttemptSec = k.now → n'.reports = n.reports ++ [k.opened] → n'.proto = n.proto →
      Told n k n' .platform
  | sent : Ready n k → n'.connected = true → n'.reports = n.reports → n'.proto = n.proto → Told n k n' .ok
  | failed : Ready n k → n'.connected = false → n'.lastAttemptSec = k.sent → n'.reports = n.reports ++ [k.sent] →
      n'.proto = n.proto → Told n k n' .platform
  | lost : Ready n k → n.proto = .udp → k.datagram = false → n'.connected = false → n'.lastAttemptSec = k.sent →
      n'.reports = n.reports → n'.proto = n.proto → Told n k n' .platform

theorem openLoop_any (proto : NetProto) (addrs : List AddrOutcome) (w : Wires) :
    (openLoop proto w addrs).2.isSome = addrs.any (AddrOutcome.opens proto) := by
  induction addrs generalizing w with
  | nil => rfl
  | cons a addrs ih =>
    unfold openLoop
    rw [List.any_cons, AddrOutcome.opens]
    by_cases hsocket : a.hasSocket = true
    · rw [if_neg (not_not_intro hsocket), hsocket, Bool.true_and]
      by_cases hconnect : proto = .udp ∨ netConnectTcp a.connect = true
      · rw [if_pos hconnect]
        simp [hconnect]
      · rw [if_neg hconnect, ih]
        simp [not_or.mp hconnect]
    · rw [if_pos hsocket, ih]
      simp [hsocket]

/-- What `net_open` leaves. -/
theorem netOpen_told (n : NetSink) (addrs : Option (List AddrOutcome)) : ∃ m, n.netOpen addrs = (m, opensAny n.proto addrs) ∧
    m.connected = (n.connected || opensAny n.proto addrs) ∧ m.lastAttemptSec = n.lastAttemptSec ∧ m.reports = n.reports ∧
    m.proto = n.proto := by
  unfold netOpen
  cases addrs with
  | none => exact ⟨n, rfl, (Bool.or_false _).symm, rfl, rfl, rfl⟩
  | some addrs =>
    have hany := openLoop_any n.proto addrs n.wires
    simp only
    cases hloop : openLoop n.proto n.wires addrs with
    | mk w fd =>
      rw [hloop] at hany
      rw [show opensAny n.proto (some addrs) = fd.isSome from hany.symm]
      cases fd with
      | none => exact ⟨_, rfl, (Bool.or_false _).symm, rfl, rfl, rfl⟩
      | some fd => exact ⟨_, rfl, (Bool.or_true _).symm, rfl, rfl, rfl⟩

theorem disconnect_told (n : NetSink) : n.netDisconnect.connected = false ∧ n.netDisconnect.reports = n.reports ∧
    n.netDisconnect.proto = n.proto := by
  unfold netDisconnect
  split <;> exact ⟨rfl, rfl, rfl⟩

/-- With a connection the line is sent, or the failure is reported, if it is no datagram. -/
theorem sending_told {m : NetSink} (hready : n.netReady k = (m, true)) (hr : Ready n k) (hconn : m.connected = true)
    (hreports : m.reports = n.reports) (hproto : m.proto = n.proto) (h : n.netWrite k = some (n', rc)) : Told n k n' rc := by
  unfold netWrite at h
  rw [hready] at h
  simp only at h
  obtain ⟨hdown, hsame, hkind⟩ := disconnect_told m
  split at h
  · rename_i hudp
    split at h
    · cases h
      exact .sent hr hconn hreports hproto
    · rename_i hlost
      cases h
      exact .lost hr (hproto ▸ hudp) (Bool.eq_false_iff.mpr hlost) hdown rfl (hsame.trans hreports) (hkind.trans hproto)
  · split at h
    · split at h
      · cases h
        exact .sent hr hconn hreports hproto
      · cases h
        refine .failed hr hdown rfl ?_ (hkind.trans hproto)
        rw [← hreports, ← hsame]
        rfl
    · rename_i fd hfd
      obtain ⟨⟨w, whole⟩, hloop, he⟩ := Option.map_eq_some_iff.mp h
      obtain ⟨hdown, hsame, hkind⟩ := disconnect_told { m with wires := w }
      cases whole with
      | true =>
        cases he
        exact .sent hr hconn hreports hproto
      | false =>
        cases he
        refine .failed hr hdown rfl ?_ (hkind.trans hproto)
        rw [← hreports]
        exact congrArg (fun l => l ++ [k.sent]) hsame

theorem write_told (h : n.netWrite k = some (n', rc)) : Told n k n' rc := by
  by_cases hconn : n.connected = true
  · have hready : n.netReady k = (n, true) := if_pos hconn
    exact sending_told hready (.inl hconn) hconn rfl rfl h
  · have hdown := Bool.eq_false_iff.mpr hconn
    by_cases hwait : k.now - n.lastAttemptSec < netRetrySecs
    · have hready : n.netReady k = (n, false) := by
        unfold netReady
        rw [if_neg hconn, if_pos hwait]
      unfold netWrite at h
      rw [hready] at h
      cases h
      exact .waits hdown hwait rfl
    · obtain ⟨m, hopen, hmconn, hmlast, hmreports, hmproto⟩ := netOpen_told { n with lastAttemptSec := k.now } k.addrs
      have hattempt := Int.not_lt.mp hwait
      cases hany : opensAny n.proto k.addrs with
      | true =>
        have hready : n.netReady k = (m, true) := by
          unfold netReady
          rw [if_neg hconn, if_neg hwait, hopen, hany]
        refine sending_told hready (.inr ⟨hattempt, hany⟩) ?_ hmreports hmproto h
        rw [hmconn, hany, Bool.or_true]
      | false =>
        have hready : n.netReady k = (m.report k.opened, false) := by
          unfold netReady
          rw [if_neg hconn, if_neg hwait, hopen, hany]
        unfold netWrite at h
        rw [hready] at h
        cases h
        refine .refused hdown hattempt hany ?_ hmlast ?_ hmproto
        · change m.connected = false
          rw [hmconn, hany, Bool.or_false]
          exact hdown
        · change m.reports ++ _ = _
          rw [hmreports]

/-! ## The clock -/

/-- The clock does not go back, within a call and from one to the next. -/
def Clocked : Int → List NetCall → Prop
  | _, [] => True
  | t, k :: calls => t ≤ k.now ∧ k.now ≤ k.opened ∧ k.opened ≤ k.sent ∧ Clocked k.sent calls

/-- Reports are a window apart. -/
def Spaced (reports : List Int) : Prop := reports.Pairwise fun r r' => netRetrySecs ≤ r' - r

/-- A report in the same call, or not long before it. -/
def Covered (n : NetSink) (k : NetCall) (n' : NetSink) : Prop :=
  n'.reports ≠ n.reports ∨ ∃ r ∈ n.reports, r ≤ k.now ∧ k.now - r < netRetrySecs

/-- Failing to open a connection takes no time, and no datagram fails. -/
def Harmless (n : NetSink) (k : NetCall) : Prop :=
  (n.connected = false → netRetrySecs ≤ k.now - n.lastAttemptSec → opensAny n.proto k.addrs = false → k.opened = k.now) ∧
    (Ready n k → n.proto = .udp → k.datagram = true)

/-- At the time `t` a report is due again if there is a connection, and else from a window after the last on. -/
structure Paced (n : NetSink) (t : Int) : Prop where
  spaced : Spaced n.reports
  past : ∀ r ∈ n.reports, r ≤ t
  start : netRetrySecs ≤ t
  up : n.connected = true → ∀ r ∈ n.reports, netRetrySecs ≤ t - r
  down : n.connected = false → n.reports = [] ∧ n.lastAttemptSec = 0 ∨
    n.lastAttemptSec ∈ n.reports ∧ ∀ r ∈ n.reports, r ≤ n.lastAttemptSec

variable {t : Int}

theorem created_paced (proto : NetProto) : (created proto).Paced netRetrySecs where
  spaced := List.Pairwise.nil
  past := fun r hr => by cases hr
  start := le_refl _
  up := fun h => by cases h
  down := fun _ => .inl ⟨rfl, rfl⟩

/-- Whoever may report is a window away from all reports. -/
theorem Paced.gap (h : n.Paced t) (ht : t ≤ k.now) (hdue : n.connected = true ∨ netRetrySecs ≤ k.now - n.lastAttemptSec) :
    ∀ r ∈ n.reports, netRetrySecs ≤ k.now - r := by
  intro r hr
  by_cases hconn : n.connected = true
  · have := h.up hconn r hr
    omega
  · have hlate := hdue.resolve_left hconn
    rcases h.down (Bool.eq_false_iff.mpr hconn) with ⟨hnil, -⟩ | ⟨-, hlast⟩
    · rw [hnil] at hr
      cases hr
    · have := hlast r hr
      omega

theorem Ready.due (h : Ready n k) : n.connected = true ∨ netRetrySecs ≤ k.now - n.lastAttemptSec := h.imp_right And.left

/-- A report that is a window away from all others. -/
theorem spaced_report {reports : List Int} {time : Int} (h : Spaced reports) (hgap : ∀ r ∈ reports, netRetrySecs ≤ time - r) :
    Spaced (reports ++ [time]) ∧ ∀ r ∈ reports ++ [time], r ≤ time := by
  have hsecs : netRetrySecs = 2 := rfl
  refine ⟨List.pairwise_append.mpr ⟨h, List.pairwise_singleton _ _, fun r hr r' hr' => ?_⟩, fun r hr => ?_⟩
  · rw [List.mem_singleton.mp hr']
    exact hgap r hr
  · rcases List.mem_append.mp hr with hr | hr
    · have := hgap r hr
      omega
    · exact (List.mem_singleton.mp hr).le

theorem write_paced (h : n.Paced t) (hk : Harmless n k) (ht : t ≤ k.now) (hopen : k.now ≤ k.opened) (hsent : k.opened ≤ k.sent)
    (htold : Told n k n' rc) : n'.Paced k.sent ∧ (rc ≠ .ok → Covered n k n') := by
  have hstart := h.start
  have hnew : ∀ time, n.reports ++ [time] ≠ n.reports := fun time he => by simpa using congrArg List.length he
  cases htold with
  | waits hconn hwait he =>
    subst he
    refine ⟨⟨h.spaced, fun r hr => ?_, by omega, fun hup => ?_, h.down⟩, fun _ => .inr ?_⟩
    · have := h.past r hr
      omega
    · rw [hconn] at hup
      cases hup
    · rcases h.down hconn with ⟨-, hzero⟩ | ⟨hlast, -⟩
      · omega
      · exact ⟨_, hlast, (h.past _ hlast).trans ht, hwait⟩
  | refused hconn hattempt hany hdown hlast hreports hproto =>
    have hquick := hk.1 hconn hattempt hany
    obtain ⟨hspaced, hpast⟩ := spaced_report h.spaced (h.gap ht (.inr hattempt))
    rw [hquick] at hreports
    refine ⟨⟨hreports ▸ hspaced, fun r hr => ?_, by omega, fun hup => ?_, fun _ => .inr ⟨?_, fun r hr => ?_⟩⟩, fun _ => .inl ?_⟩
    · rw [hreports] at hr
      have := hpast r hr
      omega
    · rw [hdown] at hup
      cases hup
    · rw [hlast, hreports]
      exact List.mem_append_right _ (List.mem_singleton_self _)
    · rw [hreports] at hr
      rw [hlast]
      exact hpast r hr
    · rw [hreports]
      exact hnew k.now
  | sent hready hup hreports hproto =>
    have hgap := h.gap ht hready.due
    refine ⟨⟨hreports ▸ h.spaced, fun r hr => ?_, by omega, fun _ r hr => ?_, fun hdown => ?_⟩, fun hok => absurd rfl hok⟩
    · rw [hreports] at hr
      have := h.past r hr
      omega
    · rw [hreports] at hr
      have := hgap r hr
      omega
    · rw [hup] at hdown
      cases hdown
  | failed hready hdown hlast hreports hproto =>
    have hgap : ∀ r ∈ n.reports, netRetrySecs ≤ k.sent - r := by
      intro r hr
      have := h.gap ht hready.due r hr
      omega
    obtain ⟨hspaced, hpast⟩ := spaced_report h.spaced hgap
    refine ⟨⟨hreports ▸ hspaced, fun r hr => ?_, by omega, fun hup => ?_, fun _ => .inr ⟨?_, fun r hr => ?_⟩⟩, fun _ => .inl ?_⟩
    · rw [hreports] at hr
      exact hpast r hr
    · rw [hdown] at hup
      cases hup
    · rw [hlast, hreports]
      exact List.mem_append_right _ (List.mem_singleton_self _)
    · rw [hreports] at hr
      rw [hlast]
      exact hpast r hr
    · rw [hreports]
      exact hnew k.sent
  | lost hready hudp hlost hdown hlast hreports hproto =>
    rw [hk.2 hready hudp] at hlost
    cases hlost

/-! ## Runs -/

/-- Every error is covered by a report, and the reports are a window apart. -/
def ReportedOnce (proto : NetProto) (calls : List NetCall) : Prop :=
  ∀ before k after n n' rc, calls = before ++ k :: after → run step (created proto) before = some n →
    n.netWrite k = some (n', rc) → (rc ≠ .ok → Covered n k n') ∧ Spaced n'.reports

theorem run_paced (before : List NetCall) {after : List NetCall} {m : NetSink} (h : n.Paced t)
    (hclock : Clocked t (before ++ k :: after)) (halong : Along step Harmless n (before ++ k :: after))
    (hrun : run step n before = some m) : ∃ t', m.Paced t' ∧ Clocked t' (k :: after) ∧ Harmless m k := by
  induction before generalizing n t with
  | nil =>
    cases hrun
    exact ⟨t, h, hclock, halong.1⟩
  | cons j before ih =>
    rw [run_cons] at hrun
    obtain ⟨n₁, hstep, hrun⟩ := Option.bind_eq_some_iff.mp hrun
    obtain ⟨⟨n₂, rc⟩, hwrite, rfl⟩ := Option.map_eq_some_iff.mp hstep
    obtain ⟨ht, hopen, hsent, hclock⟩ := hclock
    have hnext := (write_paced h halong.1 ht hopen hsent (write_told hwrite)).1
    exact ih hnext hclock (halong.2 _ hstep) hrun

/-- In a run of harmless steps from a clock of `HX_NET_RETRY_SECS` or later. -/
theorem reported_once (proto : NetProto) (calls : List NetCall) (hclock : Clocked netRetrySecs calls)
    (h : Along step Harmless (created proto) calls) : ReportedOnce proto calls := by
  intro before k after n n' rc hcalls hrun hwrite
  rw [hcalls] at hclock h
  obtain ⟨t, hpaced, ⟨ht, hopen, hsent, -⟩, hharmless⟩ := run_paced before (created_paced proto) hclock h hrun
  obtain ⟨hnext, hcovered⟩ := write_paced hpaced hharmless ht hopen hsent (write_told hwrite)
  exact ⟨hcovered, hnext.spaced⟩

/-- Nothing is taken. -/
def noByte (_ _ : Nat) : Option Nat := none

theorem noByte_le (nth requested n : Nat) (h : noByte nth requested = some n) : 0 < n ∧ n ≤ requested := by cases h

/-- A call at which the clock reads `now`, for the addresses. `datagram` tells whether `sendto` succeeds. -/
def callAt (now opened : Int) (addrs : Option (List AddrOutcome)) (datagram : Bool) : NetCall :=
  ⟨lit "one", now, opened, opened, addrs, ⟨noByte, noByte_le⟩, datagram⟩

theorem reported_once_refused : Clocked netRetrySecs [callAt 10 10 none true] ∧
    Along step Harmless (created .tcp) [callAt 10 10 none true] ∧ ReportedOnce .tcp [callAt 10 10 none true] := by
  have hclock : Clocked netRetrySecs [callAt 10 10 none true] := ⟨by decide, by decide, by decide, trivial⟩
  have halong : Along step Harmless (created .tcp) [callAt 10 10 none true] :=
    ⟨⟨fun _ _ _ => rfl, fun _ h => by cases h⟩, fun _ _ => trivial⟩
  exact ⟨hclock, halong, reported_once .tcp _ hclock halong⟩

/-- There is a socket, and `sendto` fails: no report. -/
def lostDatagram : NetCall := callAt 10 10 (some [⟨true, .connected⟩]) false

/-- The host is not found, which takes five seconds, and in the same second once more. -/
def slowLookups : List NetCall := [callAt 10 15 none true, callAt 15 15 none true]

theorem datagram_not_reported : ¬ReportedOnce .udp [lostDatagram] ∧ ¬ReportedOnce .tcp slowLookups := by
  constructor
  · intro h
    have hwrite : ∃ n', (created .udp).netWrite lostDatagram = some (n', .platform) ∧ n'.reports = [] := ⟨_, rfl, rfl⟩
    obtain ⟨n', hwrite, hreports⟩ := hwrite
    rcases (h [] lostDatagram [] _ _ _ rfl rfl hwrite).1 (by decide) with hnew | ⟨r, hr, -⟩
    · exact hnew hreports
    · cases hr
  · intro h
    have hrun : ∃ n n', run step (created .tcp) [callAt 10 15 none true] = some n ∧
        n.netWrite (callAt 15 15 none true) = some (n', .platform) ∧ n'.reports = [15, 15] := ⟨_, _, rfl, rfl, rfl⟩
    obtain ⟨n, n', hrun, hwrite, hreports⟩ := hrun
    have hspaced := (h _ _ [] _ _ _ rfl hrun hwrite).2
    rw [hreports] at hspaced
    revert hspaced
    unfold Spaced
    decide

end NetSink

end HxClog
