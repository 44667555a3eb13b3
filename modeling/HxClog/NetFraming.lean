import HxClog.NetSink

/-!
# What goes over a connection

A receiver can find the lines of a connection again only from its start. So over every
connection go whole lines, and after a part of a line nothing more.
-/

namespace HxClog

open C Transition

/-! ## Sending a line -/

theorem i32_small {n : Nat} (h : n < 2 ^ 31) : toUlong (i32 n) = n := by
  unfold i32
  rw [if_pos h, toUlong_of_nonneg (Int.natCast_nonneg n) (by omega), Int.toNat_natCast]

namespace Wires

theorem carry_nil (w : Wires) (fd : Nat) : w.carry fd [] = w := by
  unfold carry
  rw [List.append_nil, Function.update_eq_self]

theorem carry_carry (w : Wires) (fd : Nat) (a b : Bytes) : (w.carry fd a).carry fd b = w.carry fd (a ++ b) := by
  unfold carry
  simp

/-- No socket is open. -/
def AllClosed (w : Wires) : Prop := ∀ c, w.isOpen c = false

end Wires

namespace NetSink

/-- The whole rest of the line goes out, or a part of it and a send fails. -/
def Sent (fd : Nat) (rest : Bytes) (w : Wires) (out : Wires × Bool) : Prop :=
  out = (w.carry fd rest, true) ∨ ∃ p, p <+: rest ∧ p ≠ rest ∧ out = (w.carry fd p, false)

theorem sendLoop_sent (fd : Nat) {line : Bytes} (sends : Sends) (hline : line.length < 2 ^ 31) :
    ∀ (fuel nth off : Nat) (w : Wires), off ≤ line.length → line.length ≤ off + fuel →
      ∃ out, sendLoop fd line sends fuel nth off w = some out ∧ Sent fd (line.drop off) w out
  | 0, nth, off, w, hoff, hfuel => by
    refine ⟨(w, true), ?_, .inl ?_⟩
    · unfold sendLoop
      rw [if_neg (by omega)]
    · rw [List.drop_eq_nil_of_le (by omega), w.carry_nil]
  | fuel + 1, nth, off, w, hoff, hfuel => by
    unfold sendLoop
    by_cases hrest : off < line.length
    · rw [if_pos hrest, i32_small (by omega)]
      have hlen : (line.drop off).length = line.length - off := List.length_drop
      cases htook : sends.took nth (line.length - off) with
      | none =>
        refine ⟨(w, false), rfl, .inr ⟨[], List.nil_prefix, ?_, ?_⟩⟩
        · intro hnil
          rw [← hnil] at hlen
          simp only [List.length_nil] at hlen
          omega
        · rw [w.carry_nil]
      | some s =>
        obtain ⟨hpos, hle⟩ := sends.some_le nth _ s htook
        obtain ⟨out, hout, hsent⟩ := sendLoop_sent fd sends hline fuel (nth + 1) (off + s)
          (w.carry fd ((line.drop off).take s)) (by omega) (by omega)
        have hsplit : (line.drop off).take s ++ line.drop (off + s) = line.drop off := by
          rw [← List.drop_drop, List.take_append_drop]
        refine ⟨out, ?_, ?_⟩
        · simp only
          rw [u32_of_lt (by omega)]
          exact hout
        · rcases hsent with rfl | ⟨p, hp, hne, rfl⟩
          · left
            rw [Wires.carry_carry, hsplit]
          · right
            refine ⟨(line.drop off).take s ++ p, ?_, ?_, ?_⟩
            · have hpre := (List.prefix_append_right_inj ((line.drop off).take s)).mpr hp
              rwa [hsplit] at hpre
            · intro he
              exact hne (List.append_cancel_left (he.trans hsplit.symm))
            · rw [Wires.carry_carry]
    · rw [if_neg hrest]
      refine ⟨(w, true), rfl, .inl ?_⟩
      rw [List.drop_eq_nil_of_le (by omega), w.carry_nil]

/-! ## Connections -/

/-- Only the socket of the sink is open, and nothing went over sockets that are not made yet. -/
structure Sound (n : NetSink) : Prop where
  connected : n.connected = n.fd.isSome
  fd_made : ∀ c, n.fd = some c → c < n.wires.made
  fd_open : ∀ c, n.wires.isOpen c = true ↔ n.fd = some c
  fresh : ∀ c, n.wires.made ≤ c → n.wires.carried c = []

/-- Closed for good. -/
def Dead (n : NetSink) (c : Nat) : Prop := c < n.wires.made ∧ n.wires.isOpen c = false

variable {n n' : NetSink} {k : NetCall} {c : Nat}

theorem created_sound (proto : NetProto) : (created proto).Sound where
  connected := rfl
  fd_made := fun c hc => by cases hc
  fd_open := fun c => iff_of_false (fun h => by cases h) (fun h => by cases h)
  fresh := fun c _ => rfl

theorem openLoop_spec (proto : NetProto) : ∀ (addrs : List AddrOutcome) {w w' : Wires} {fd : Option Nat},
    w.AllClosed → openLoop proto w addrs = (w', fd) → w'.carried = w.carried ∧ w.made ≤ w'.made ∧
      (∀ c, w'.isOpen c = true ↔ fd = some c) ∧ ∀ c, fd = some c → w.made ≤ c ∧ c < w'.made
  | [], w, w', fd, hw, h => by
    cases h
    refine ⟨rfl, Nat.le_refl _, fun c => ?_, fun c hc => by cases hc⟩
    rw [hw c]
    exact iff_of_false (fun h => by cases h) (fun h => by cases h)
  | a :: addrs, w, w', fd, hw, h => by
    unfold openLoop at h
    split at h
    · exact openLoop_spec proto addrs hw h
    · split at h
      · cases h
        refine ⟨rfl, Nat.le_succ _, fun c => ?_, fun c hc => ?_⟩
        · by_cases hc : c = w.made
          · subst hc
            simp [Wires.make]
          · simp [Wires.make, hc, hw c, Ne.symm hc]
        · cases hc
          exact ⟨Nat.le_refl _, Nat.lt_succ_self _⟩
      · have hclosed : (w.make.close w.made).AllClosed := by
          intro c
          by_cases hc : c = w.made
          · subst hc
            simp [Wires.close]
          · simp [Wires.close, Wires.make, hc, hw c]
        obtain ⟨hcarried, hmade, hopen, hfd⟩ := openLoop_spec proto addrs hclosed h
        have hsucc : w.made + 1 ≤ w'.made := hmade
        refine ⟨hcarried, by omega, hopen, fun c hc => ?_⟩
        obtain ⟨hge, hlt⟩ := hfd c hc
        have hge' : w.made + 1 ≤ c := hge
        exact ⟨by omega, hlt⟩

/-- Nothing is sent, and what was closed stays closed. -/
structure Quiet (n n' : NetSink) : Prop where
  proto : n'.proto = n.proto
  sound : n'.Sound
  carried : n'.wires.carried = n.wires.carried
  dead : ∀ c, n.Dead c → n'.Dead c

theorem Sound.closed (h : n.Sound) (hfd : n.fd = none) : n.wires.AllClosed := by
  intro c
  refine Bool.eq_false_iff.mpr fun hc => ?_
  rw [(h.fd_open c).mp hc] at hfd
  cases hfd

theorem Quiet.congr {n'' : NetSink} (h : Quiet n n') (hproto : n''.proto = n'.proto) (hfd : n''.fd = n'.fd)
    (hconn : n''.connected = n'.connected) (hwires : n''.wires = n'.wires) : Quiet n n'' := by
  refine ⟨hproto.trans h.proto, ⟨?_, ?_, ?_, ?_⟩, hwires ▸ h.carried, fun c hc => ?_⟩
  · rw [hconn, hfd, h.sound.connected]
  · rw [hfd, hwires]
    exact h.sound.fd_made
  · rw [hfd, hwires]
    exact h.sound.fd_open
  · rw [hwires]
    exact h.sound.fresh
  · unfold Dead
    rw [hwires]
    exact h.dead c hc

theorem Quiet.refl (h : n.Sound) : Quiet n n := ⟨rfl, h, rfl, fun _ hc => hc⟩

theorem netOpen_quiet (h : n.Sound) (hfd : n.fd = none) (addrs : Option (List AddrOutcome)) :
    Quiet n (n.netOpen addrs).1 ∧ ((n.netOpen addrs).2 = true ↔ (n.netOpen addrs).1.fd.isSome) := by
  unfold netOpen
  cases addrs with
  | none => exact ⟨Quiet.refl h, by simp [hfd]⟩
  | some addrs =>
    simp only
    obtain ⟨w, fd, hloop⟩ : ∃ w fd, openLoop n.proto n.wires addrs = (w, fd) := ⟨_, _, rfl⟩
    obtain ⟨hcarried, hmade, hopen, hnew⟩ := openLoop_spec n.proto addrs (h.closed hfd) hloop
    have hfresh : ∀ c, w.made ≤ c → w.carried c = [] := by
      intro c hc
      rw [hcarried]
      exact h.fresh c (hmade.trans hc)
    have hdead : ∀ c, n.Dead c → c < w.made ∧ w.isOpen c = false := by
      rintro c ⟨hlt, -⟩
      refine ⟨Nat.lt_of_lt_of_le hlt hmade, Bool.eq_false_iff.mpr fun hc => ?_⟩
      have hge := (hnew c ((hopen c).mp hc)).1
      omega
    rw [hloop]
    cases fd with
    | none =>
      have hconn : n.connected = false := by
        rw [h.connected, hfd]
        rfl
      refine ⟨⟨rfl, ⟨?_, ?_, ?_, hfresh⟩, hcarried, hdead⟩, ?_⟩
      · exact h.connected
      · intro c hc
        rw [show n.fd = some c from hc] at hfd
        cases hfd
      · intro c
        change w.isOpen c = true ↔ n.fd = some c
        rw [hopen c, hfd]
      · change false = true ↔ n.fd.isSome = true
        rw [hfd]
        decide
    | some fd => exact ⟨⟨rfl, ⟨rfl, fun c hc => (hnew c hc).2, hopen, hfresh⟩, hcarried, hdead⟩, iff_of_true rfl rfl⟩

theorem netReady_quiet (h : n.Sound) (k : NetCall) : Quiet n (n.netReady k).1 ∧
    ((n.netReady k).2 = true ↔ (n.netReady k).1.fd.isSome) := by
  unfold netReady
  by_cases hconn : n.connected = true
  · rw [if_pos hconn]
    exact ⟨Quiet.refl h, by rw [← h.connected, hconn]⟩
  · have hfd : n.fd = none := by
      rw [h.connected] at hconn
      exact Option.not_isSome_iff_eq_none.mp hconn
    rw [if_neg hconn]
    split
    · exact ⟨Quiet.refl h, by simp [hfd]⟩
    · have hstamped : Quiet n { n with lastAttemptSec := k.now } := (Quiet.refl h).congr rfl rfl rfl rfl
      obtain ⟨hq, hup⟩ := netOpen_quiet hstamped.sound hfd k.addrs
      have hquiet : Quiet n ({ n with lastAttemptSec := k.now }.netOpen k.addrs).1 := ⟨hq.proto, hq.sound, hq.carried, hq.dead⟩
      cases hopen : { n with lastAttemptSec := k.now }.netOpen k.addrs with
      | mk opened got =>
        rw [hopen] at hquiet hup
        cases got with
        | true => exact ⟨hquiet, hup⟩
        | false => exact ⟨hquiet.congr rfl rfl rfl rfl, hup⟩

/-- What a call leaves. Its line is dropped, goes out as a whole, or breaks off, and then the connection is closed. -/
inductive Written (n : NetSink) (line : Bytes) (n' : NetSink) : Rc → Prop where
  | dropped : Quiet n n' → n'.fd = none → Written n line n' .platform
  | whole {mid : NetSink} {c : Nat} : Quiet n mid → mid.fd = some c → n'.fd = some c → n'.connected = mid.connected →
      n'.proto = mid.proto → n'.wires = mid.wires.carry c line → Written n line n' .ok
  | broken {mid : NetSink} {c : Nat} {p : Bytes} : Quiet n mid → mid.fd = some c → p <+: line → p ≠ line → n'.fd = none →
      n'.connected = false → n'.proto = mid.proto → n'.wires = (mid.wires.carry c p).close c → Written n line n' .platform

theorem write_cases (h : n.Sound) (htcp : n.proto = .tcp) (hline : k.line.length < 2 ^ 31) :
    ∃ n' rc, n.netWrite k = some (n', rc) ∧ Written n k.line n' rc := by
  obtain ⟨hq, hup⟩ := netReady_quiet h k
  unfold netWrite
  cases hready : n.netReady k with
  | mk mid up =>
    rw [hready] at hq hup
    have hproto : mid.proto = .tcp := hq.proto.trans htcp
    simp only at hq hup ⊢
    cases up with
    | false =>
      have hfd : mid.fd = none := Option.not_isSome_iff_eq_none.mp fun hs => by cases hup.mpr hs
      exact ⟨mid, .platform, rfl, .dropped hq hfd⟩
    | true =>
      obtain ⟨c, hc⟩ := Option.isSome_iff_exists.mp (hup.mp rfl)
      obtain ⟨out, hout, hsent⟩ := sendLoop_sent c k.sends hline k.line.length 0 0 mid.wires
        (Nat.zero_le _) (Nat.zero_add _).ge
      simp only [hproto, hc, hout, Option.map_some]
      rcases hsent with rfl | ⟨p, hp, hne, rfl⟩
      · exact ⟨_, .ok, rfl, .whole hq hc rfl rfl hproto.symm rfl⟩
      · exact ⟨_, .platform, rfl, .broken hq hc hp hne rfl rfl hproto.symm rfl⟩

/-- Only a connection that is open or new carries anything. -/
theorem carry_fresh {w : Wires} {d : Nat} (hc : c < w.made) (hd : w.made ≤ d) (b : Bytes) :
    (w.carry c b).carried d = w.carried d := by
  unfold Wires.carry
  exact Function.update_of_ne (by omega) _ _

theorem Written.sound {line : Bytes} {rc : Rc} (hw : Written n line n' rc) : n'.Sound ∧ n'.proto = n.proto ∧ ∀ d, n.Dead d → n'.Dead d := by
  cases hw with
  | dropped hq _ => exact ⟨hq.sound, hq.proto, hq.dead⟩
  | @whole mid c hq hc hfd hconn hproto hwires =>
    have hlt := hq.sound.fd_made c hc
    refine ⟨⟨?_, ?_, ?_, fun d hd => ?_⟩, hproto.trans hq.proto, fun d hd => ?_⟩
    · rw [hconn, hfd, ← hc, hq.sound.connected]
    · rw [hfd, hwires, ← hc]
      exact hq.sound.fd_made
    · rw [hfd, hwires, ← hc]
      exact hq.sound.fd_open
    · rw [hwires] at hd ⊢
      rw [carry_fresh hlt hd]
      exact hq.sound.fresh d hd
    · have hdead := hq.dead d hd
      unfold Dead at hdead ⊢
      rwa [hwires]
  | @broken mid c p hq hc hp hne hfd hconn hproto hwires =>
    have hlt := hq.sound.fd_made c hc
    have hclosed : ∀ d, n'.wires.isOpen d = false := by
      intro d
      rw [hwires]
      unfold Wires.close
      by_cases hd : d = c
      · rw [hd]
        exact Function.update_self _ _ _
      · refine (Function.update_of_ne hd _ _).trans (Bool.eq_false_iff.mpr fun hopen => ?_)
        have hfd' := (hq.sound.fd_open d).mp hopen
        rw [hc] at hfd'
        exact hd (Option.some.inj hfd').symm
    refine ⟨⟨?_, ?_, ?_, fun d hd => ?_⟩, hproto.trans hq.proto, fun d hd => ⟨?_, hclosed d⟩⟩
    · rw [hconn, hfd]
      rfl
    · intro d hd
      rw [hfd] at hd
      cases hd
    · intro d
      rw [hclosed d, hfd]
      exact iff_of_false (fun h => by cases h) (fun h => by cases h)
    · rw [hwires] at hd ⊢
      change (mid.wires.carry c p).carried d = []
      rw [carry_fresh hlt hd]
      exact hq.sound.fresh d hd
    · rw [hwires]
      exact (hq.dead d hd).1

theorem Sound.alive (h : n.Sound) (hc : n.fd = some c) : ¬n.Dead c := by
  rintro ⟨-, hclosed⟩
  rw [(h.fd_open c).mpr hc] at hclosed
  cases hclosed

/-- What went over a connection changes by the line, by a part of it, or not at all. -/
theorem Written.carried {line : Bytes} {rc : Rc} (hw : Written n line n' rc) (d : Nat) :
    (rc = .ok ∧ n'.fd = some d ∧ ¬n.Dead d ∧ n'.wires.carried d = n.wires.carried d ++ line) ∨
      (¬(rc = .ok ∧ n'.fd = some d) ∧ (n'.wires.carried d = n.wires.carried d ∨
        ¬n.Dead d ∧ n'.Dead d ∧ ∃ p, p <+: line ∧ p ≠ line ∧ n'.wires.carried d = n.wires.carried d ++ p)) := by
  have hnew : ∀ {mid : NetSink} {c : Nat} (b : Bytes), Quiet n mid →
      (mid.wires.carry c b).carried c = n.wires.carried c ++ b := by
    intro mid c b hq
    rw [← hq.carried]
    exact Function.update_self _ _ _
  have hold : ∀ {mid : NetSink} {c : Nat} (b : Bytes), Quiet n mid → d ≠ c →
      (mid.wires.carry c b).carried d = n.wires.carried d := by
    intro mid c b hq hd
    rw [← hq.carried]
    exact Function.update_of_ne hd _ _
  cases hw with
  | dropped hq _ =>
    refine .inr ⟨(fun h => by cases h.1), .inl ?_⟩
    rw [hq.carried]
  | @whole mid c hq hc hfd hconn hproto hwires =>
    by_cases hd : d = c
    · subst hd
      refine .inl ⟨rfl, hfd, fun hdead => hq.sound.alive hc (hq.dead d hdead), ?_⟩
      rw [hwires]
      exact hnew line hq
    · refine .inr ⟨fun h => hd ?_, .inl ?_⟩
      · rw [hfd] at h
        exact (Option.some.inj h.2).symm
      · rw [hwires]
        exact hold line hq hd
  | @broken mid c p hq hc hp hne hfd hconn hproto hwires =>
    refine .inr ⟨(fun h => by cases h.1), ?_⟩
    by_cases hd : d = c
    · subst hd
      refine .inr ⟨fun hdead => hq.sound.alive hc (hq.dead d hdead), ⟨?_, ?_⟩, p, hp, hne, ?_⟩
      · rw [hwires]
        exact hq.sound.fd_made d hc
      · rw [hwires]
        exact Function.update_self _ _ _
      · rw [hwires]
        exact hnew p hq
    · left
      rw [hwires]
      exact hold p hq hd

/-- The line went out, all of it, once and over one connection, which is up. -/
def WentOut (n n' : NetSink) (line : Bytes) : Prop :=
  ∃ c, n'.wires.isOpen c = true ∧ n'.wires.carried = Function.update n.wires.carried c (n.wires.carried c ++ line)

theorem Written.ok_iff {line : Bytes} {rc : Rc} (hw : Written n line n' rc) : rc = .ok ↔ WentOut n n' line := by
  have hsound := hw.sound.1
  cases hw with
  | dropped hq hfd =>
    refine iff_of_false (fun h => by cases h) ?_
    rintro ⟨c, hopen, -⟩
    rw [hsound.fd_open c, hfd] at hopen
    cases hopen
  | @whole mid c hq hc hfd hconn hproto hwires =>
    refine iff_of_true rfl ⟨c, (hsound.fd_open c).mpr hfd, ?_⟩
    rw [hwires, ← hq.carried]
    rfl
  | broken hq hc hp hne hfd hconn hproto hwires =>
    refine iff_of_false (fun h => by cases h) ?_
    rintro ⟨c, hopen, -⟩
    rw [hsound.fd_open c, hfd] at hopen
    cases hopen

/-! ## Runs -/

/-- The lines that went over the connection, in the order of the calls: those for which `net_write` returned success
when it was the connection of the sink. -/
def linesOn (c : Nat) : NetSink → List NetCall → List Bytes
  | _, [] => []
  | n, k :: calls =>
    match n.netWrite k with
    | none => []
    | some (n', rc) => (if rc = .ok ∧ n'.fd = some c then [k.line] else []) ++ linesOn c n' calls

def Sized (calls : List NetCall) : Prop := ∀ k ∈ calls, k.line.length < 2 ^ 31

theorem dead_stays (calls : List NetCall) (hs : Sized calls) (h : n.Sound) (htcp : n.proto = .tcp) (hc : n.Dead c)
    (hrun : run step n calls = some n') : n'.wires.carried c = n.wires.carried c := by
  induction calls generalizing n with
  | nil =>
    cases hrun
    rfl
  | cons k calls ih =>
    obtain ⟨n₁, rc, hwrite, hw⟩ := write_cases h htcp (hs k List.mem_cons_self)
    obtain ⟨hsound, hproto, hdead⟩ := hw.sound
    have hstep : step n k = some n₁ := by
      unfold step
      rw [hwrite]
      rfl
    rw [run_cons, hstep] at hrun
    rw [ih (fun k hk => hs k (List.mem_cons_of_mem _ hk)) hsound (hproto.trans htcp) (hdead c hc) hrun]
    rcases hw.carried c with ⟨-, -, hno, -⟩ | ⟨-, hsame | ⟨hno, -⟩⟩
    · exact absurd hc hno
    · exact hsame
    · exact absurd hc hno

/-- Whole lines, and then perhaps a part of a line of the calls, if the connection is closed for good. -/
def Framed (n : NetSink) (c : Nat) (calls : List NetCall) (whole : List Bytes) (torn : Bytes) : Prop :=
  n.wires.carried c = whole.flatten ++ torn ∧ (torn = [] ∨ n.Dead c ∧ ∃ k ∈ calls, torn <+: k.line ∧ torn ≠ k.line)

theorem write_framed {before : List NetCall} {whole : List Bytes} {torn : Bytes} {rc : Rc} (h : Framed n c before whole torn)
    (hw : Written n k.line n' rc) :
    ∃ torn', Framed n' c (before ++ [k]) (whole ++ if rc = .ok ∧ n'.fd = some c then [k.line] else []) torn' := by
  obtain ⟨hcarried, htorn⟩ := h
  have hclean : ¬n.Dead c → torn = [] := fun hno => htorn.resolve_right fun hd => hno hd.1
  rcases hw.carried c with ⟨hrc, hfd, halive, hnew⟩ | ⟨hnot, hsame | ⟨halive, hdead, p, hp, hne, hnew⟩⟩
  · rw [hclean halive, List.append_nil] at hcarried
    refine ⟨[], ?_, .inl rfl⟩
    rw [if_pos ⟨hrc, hfd⟩, hnew, hcarried, List.flatten_append, List.flatten_singleton, List.append_nil]
  · rw [if_neg hnot, List.append_nil]
    refine ⟨torn, hsame.trans hcarried, htorn.imp_right ?_⟩
    rintro ⟨hd, j, hj, hpart⟩
    exact ⟨hw.sound.2.2 c hd, j, List.mem_append_left _ hj, hpart⟩
  · rw [hclean halive, List.append_nil] at hcarried
    rw [if_neg hnot, List.append_nil]
    refine ⟨p, hnew.trans (by rw [hcarried]), .inr ⟨hdead, k, ?_, hp, hne⟩⟩
    exact List.mem_append_right _ (List.mem_singleton_self k)

theorem run_framed : ∀ (calls : List NetCall) {n : NetSink} {before : List NetCall} {whole : List Bytes} {torn : Bytes},
    Sized calls → n.Sound → n.proto = .tcp → Framed n c before whole torn →
      ∃ n' torn', run step n calls = some n' ∧ n'.Sound ∧ n'.proto = .tcp ∧
        Framed n' c (before ++ calls) (whole ++ linesOn c n calls) torn'
  | [], n, before, whole, torn, _, h, htcp, hf => by
    refine ⟨n, torn, rfl, h, htcp, ?_⟩
    rwa [linesOn, List.append_nil, List.append_nil]
  | k :: calls, n, before, whole, torn, hs, h, htcp, hf => by
    obtain ⟨n₁, rc, hwrite, hw⟩ := write_cases h htcp (hs k List.mem_cons_self)
    obtain ⟨hsound, hproto, -⟩ := hw.sound
    obtain ⟨torn₁, hf₁⟩ := write_framed hf hw
    obtain ⟨n', torn', hrun, hrest⟩ := run_framed calls (fun j hj => hs j (List.mem_cons_of_mem _ hj)) hsound
      (hproto.trans htcp) hf₁
    rw [List.append_assoc, List.append_assoc] at hrest
    refine ⟨n', torn', ?_, ?_⟩
    · rw [run_cons]
      unfold step
      rw [hwrite]
      exact hrun
    · rw [linesOn, hwrite]
      exact hrest

/-- Over every connection go whole lines in the order of the calls, then at most a part of one, and then nothing. A call
succeeds if and only if its line went out, all of it, once and over one connection. -/
def KeepsFraming (calls : List NetCall) : Prop := ∃ n, run step (created .tcp) calls = some n ∧
  (∀ c, ∃ torn, n.wires.carried c = (linesOn c (created .tcp) calls).flatten ++ torn ∧
    (torn = [] ∨ (∃ k ∈ calls, torn <+: k.line ∧ torn ≠ k.line) ∧
      ∀ more n', Sized more → run step n more = some n' → n'.wires.carried c = n.wires.carried c)) ∧
  ∀ k : NetCall, k.line.length < 2 ^ 31 → ∃ n' rc, n.netWrite k = some (n', rc) ∧ (rc = .ok ↔ WentOut n n' k.line)

theorem tcp_framing (calls : List NetCall) (hs : Sized calls) : KeepsFraming calls := by
  have hstart : ∀ c, Framed (created .tcp) c [] [] [] := fun c => ⟨rfl, .inl rfl⟩
  obtain ⟨n, -, hrun, h, htcp, -⟩ := run_framed calls hs (created_sound .tcp) rfl (hstart 0)
  refine ⟨n, hrun, fun c => ?_, fun k hk => ?_⟩
  · obtain ⟨n₁, torn, hrun₁, -, -, hcarried, htorn⟩ := run_framed calls hs (created_sound .tcp) rfl (hstart c)
    obtain rfl := Option.some.inj (hrun.symm.trans hrun₁)
    refine ⟨torn, hcarried, htorn.imp_right ?_⟩
    rintro ⟨hdead, hpart⟩
    exact ⟨hpart, fun more n' hmore hrun' => dead_stays more hmore h htcp hdead hrun'⟩
  · obtain ⟨n', rc, hwrite, hw⟩ := write_cases h htcp hk
    exact ⟨n', rc, hwrite, hw.ok_iff⟩

/-- One byte is taken, and then no more. -/
def oneByte (nth requested : Nat) : Option Nat := if nth = 0 ∧ 0 < requested then some 1 else none

theorem oneByte_le (nth requested n : Nat) (h : oneByte nth requested = some n) : 0 < n ∧ n ≤ requested := by
  unfold oneByte at h
  split at h
  · cases h
    omega
  · cases h

/-- A line of which one byte goes out over a new connection. -/
def brokenCall : NetCall := ⟨lit "one", 10, 10, 11, some [⟨true, .connected⟩], ⟨oneByte, oneByte_le⟩, true⟩

theorem tcp_framing_broken : Sized [brokenCall] ∧ KeepsFraming [brokenCall] := by
  have hs : Sized [brokenCall] := by
    intro k hk
    rw [List.mem_singleton.mp hk]
    decide
  exact ⟨hs, tcp_framing [brokenCall] hs⟩

end NetSink

end HxClog
