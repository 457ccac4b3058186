import Mathlib.Data.Fintype.Card
import KappaGateway.Kapi.Connections

/-!
# What connections leave behind

However often it is reset, a UDP connection has one socket and one address list, beside the
lists of the attempts that had no socket, and a socket with the descriptor 0. A TLS connection
gives everything back, but an attempt that times out keeps its socket and its addresses, and
one without an address frees a pointer that was never set.
-/

namespace KappaGateway.Connections

open Transition

/-! ### Address lists -/

/-- Lists are named in the order in which they were allocated. -/
def Host.Numbered (h : Host) : Prop := ∀ i ∈ h.infos, i < h.allocated

section

variable {h : Host} {fd : Nat} {rt_ : Int}

theorem Host.Numbered.not_mem (hh : h.Numbered) : h.allocated ∉ h.infos :=
  fun hmem => Nat.lt_irrefl _ (hh _ hmem)

theorem Host.Numbered.insert (hh : h.Numbered) {i : Nat}
    (hi : i ∈ Insert.insert h.allocated h.infos) : i < h.allocated + 1 := by
  rcases Finset.mem_insert.mp hi with rfl | hi
  · exact Nat.lt_succ_self _
  · exact Nat.lt_succ_of_lt (hh i hi)

/-! ### UDP -/

/-- What the host has after an `acqrResrc`. -/
structure Acquired (a : Acquisition) (h : Host) (c : UDPConn) (h' : Host) : Prop where
  fd : c.fd_ = a.fd
  info : ∃ i, c.ai_ = some i ∧ i ∈ h'.infos
  fds : h'.fds = insert a.fd h.fds
  infos : h'.infos.card = h.infos.card + a.failures.count true + 1
  wild : h'.wild = h.wild
  numbered : h'.Numbered

theorem acqrResrc_socket (rest : List Opening) (c : UDPConn) :
    c.acqrResrc rt_ (.socket fd :: rest) h =
      (⟨fd, some h.allocated⟩, h.getaddrinfo.2.open fd) := by
  have hfd : ¬ (fd : Int) < 0 := by omega
  simp [UDPConn.acqrResrc, open_sock_, Host.getaddrinfo, hfd]

theorem acqrResrc_noAddress (hrt : 0 < rt_) (rest : List Opening) (c : UDPConn) :
    c.acqrResrc rt_ (.noAddress :: rest) h = UDPConn.acqrResrc rt_ rest ⟨-1, c.ai_⟩ h := by
  simp [UDPConn.acqrResrc, open_sock_, hrt]

theorem acqrResrc_noSocket (hrt : 0 < rt_) (rest : List Opening) (c : UDPConn) :
    c.acqrResrc rt_ (.noSocket :: rest) h =
      UDPConn.acqrResrc rt_ rest ⟨-1, some h.allocated⟩ h.getaddrinfo.2 := by
  simp [UDPConn.acqrResrc, open_sock_, Host.getaddrinfo, hrt]

theorem acqrResrc_acquired (hrt : 0 < rt_) (a : Acquisition) (c : UDPConn) (hh : h.Numbered) :
    Acquired a h (c.acqrResrc rt_ a.openings h).1 (c.acqrResrc rt_ a.openings h).2 := by
  obtain ⟨failures, fd⟩ := a
  unfold Acquisition.openings
  dsimp only
  induction failures generalizing c h with
  | nil =>
      rw [List.map_nil, List.nil_append, acqrResrc_socket]
      refine ⟨rfl, ⟨h.allocated, rfl, Finset.mem_insert_self _ _⟩, rfl, ?_, rfl, fun i hi => ?_⟩
      · show (Insert.insert h.allocated h.infos).card = h.infos.card + 0 + 1
        rw [Finset.card_insert_of_notMem hh.not_mem]
      · exact hh.insert hi
  | cons found failures ih =>
      rw [List.map_cons, List.cons_append]
      cases found with
      | false =>
          rw [if_neg Bool.false_ne_true, acqrResrc_noAddress hrt]
          have hrest := ih ⟨-1, c.ai_⟩ hh
          exact ⟨hrest.fd, hrest.info, hrest.fds, hrest.infos, hrest.wild, hrest.numbered⟩
      | true =>
          rw [if_pos rfl, acqrResrc_noSocket hrt]
          have hnext : h.getaddrinfo.2.Numbered := fun i hi => hh.insert hi
          have hrest := ih ⟨-1, some h.allocated⟩ hnext
          refine ⟨hrest.fd, hrest.info, hrest.fds, ?_, hrest.wild, hrest.numbered⟩
          rw [hrest.infos]
          show (Insert.insert h.allocated h.infos).card + _ + 1 = _
          rw [Finset.card_insert_of_notMem hh.not_mem, List.count_cons]
          simp
          omega

/-- What a UDP connection has after some acquisitions. -/
structure Keeps (acquisitions : List Acquisition) (s : UDPConn × Host) : Prop where
  fd : ∃ fd : Nat, s.1.fd_ = fd ∧ (∃ a ∈ acquisitions, a.fd = fd) ∧
    ∀ n, n ∈ s.2.fds ↔ n = fd ∨ n = 0 ∧ ∃ a ∈ acquisitions, a.fd = 0
  info : ∃ i, s.1.ai_ = some i ∧ i ∈ s.2.infos
  infos : s.2.infos.card = (acquisitions.flatMap Acquisition.failures).count true + 1
  wild : s.2.wild = 0
  numbered : s.2.Numbered

theorem keeps_new (hrt : 0 < rt_) (a : Acquisition) :
    Keeps [a] (UDPConn.new rt_ a.openings .empty) := by
  have hacquired := acqrResrc_acquired hrt (h := .empty) a ⟨-1, none⟩ (fun i hi => by cases hi)
  refine ⟨⟨a.fd, hacquired.fd, ⟨a, List.mem_singleton_self a, rfl⟩, fun n => ?_⟩,
    hacquired.info, ?_, hacquired.wild, hacquired.numbered⟩
  · rw [UDPConn.new, hacquired.fds]
    simp only [Host.empty, insert_empty_eq, Finset.mem_singleton, List.mem_singleton,
      exists_eq_left]
    omega
  · rw [UDPConn.new, hacquired.infos]
    simp [Host.empty]

theorem Keeps.reset (hrt : 0 < rt_) {acquisitions : List Acquisition} {s s' : UDPConn × Host}
    {a : Acquisition} (hkeeps : Keeps acquisitions s) (hstep : ResetStep rt_ s a s') :
    Keeps (acquisitions ++ [a]) s' := by
  obtain ⟨hfresh, rfl⟩ := hstep
  obtain ⟨fd, hfd, ⟨last, hlast, hlastFd⟩, hfds⟩ := hkeeps.fd
  obtain ⟨i, hi, hmem⟩ := hkeeps.info
  -- Only a descriptor that is not 0 is closed.
  have hfreed : (s.1.freeResrc s.2).infos = s.2.infos.erase i ∧
      (s.1.freeResrc s.2).wild = s.2.wild ∧
      (s.1.freeResrc s.2).allocated = s.2.allocated ∧
      ∀ n, n ∈ (s.1.freeResrc s.2).fds ↔ n ∈ s.2.fds ∧ (fd = 0 ∨ n ≠ fd) := by
    unfold UDPConn.freeResrc
    rw [hfd, hi]
    by_cases hzero : fd = 0
    · simp [hzero, Host.freeaddrinfo, hmem]
    · have hpos : 0 < fd := Nat.pos_of_ne_zero hzero
      simp [hpos, Host.freeaddrinfo, Host.close, hmem, hzero, and_comm]
  obtain ⟨hinfos, hwild, hallocated, hmemFds⟩ := hfreed
  have hnumbered : (s.1.freeResrc s.2).Numbered := by
    intro j hj
    rw [hinfos] at hj
    rw [hallocated]
    exact hkeeps.numbered j (Finset.mem_of_mem_erase hj)
  have hacquired := acqrResrc_acquired hrt a s.1 hnumbered
  refine ⟨⟨a.fd, hacquired.fd, ⟨a, List.mem_append_right _ (List.mem_singleton_self a), rfl⟩,
    fun n => ?_⟩, hacquired.info, ?_, ?_, hacquired.numbered⟩
  · rw [UDPConn.reset, hacquired.fds, Finset.mem_insert, hmemFds, hfds]
    have happend : (∃ d ∈ acquisitions ++ [a], d.fd = 0) ↔
        (∃ d ∈ acquisitions, d.fd = 0) ∨ a.fd = 0 := by
      simp only [List.mem_append, List.mem_singleton]
      constructor
      · rintro ⟨d, hd | rfl, hzero⟩
        · exact Or.inl ⟨d, hd, hzero⟩
        · exact Or.inr hzero
      · rintro (⟨d, hd, hzero⟩ | hzero)
        · exact ⟨d, Or.inl hd, hzero⟩
        · exact ⟨a, Or.inr rfl, hzero⟩
    rw [happend]
    by_cases hzero : fd = 0
    · have hused : ∃ d ∈ acquisitions, d.fd = 0 := ⟨last, hlast, hlastFd.trans hzero⟩
      simp only [hzero, hused, and_true, true_or, or_self]
    · constructor
      · rintro (rfl | ⟨rfl | ⟨rfl, hused⟩, hother⟩)
        · exact Or.inl rfl
        · exact absurd rfl (hother.resolve_left hzero)
        · exact Or.inr ⟨rfl, Or.inl hused⟩
      · rintro (rfl | ⟨rfl, hused | ha⟩)
        · exact Or.inl rfl
        · exact Or.inr ⟨Or.inr ⟨rfl, hused⟩, Or.inr (Ne.symm hzero)⟩
        · exact Or.inl ha.symm
  · rw [UDPConn.reset, hacquired.infos, hinfos, Finset.card_erase_of_mem hmem, hkeeps.infos]
    simp
  · rw [UDPConn.reset, hacquired.wild, hwild]
    exact hkeeps.wild

/-- After any number of resets, however many attempts each of them needs, a UDP connection
that retries has its socket and no other but one with the descriptor 0; it has its address
list, and one more for each attempt that had no socket; and it has freed nothing that it did
not have. -/
theorem udp_ledger (hrt : 0 < rt_) {first : Acquisition} {s : UDPConn × Host}
    {tr : List ((UDPConn × Host) × Acquisition × (UDPConn × Host))}
    (path : Path (ResetStep rt_) (UDPConn.new rt_ first.openings .empty) tr s) :
    (∃ fd : Nat, s.1.fd_ = fd ∧ ∀ n, n ∈ s.2.fds ↔
      n = fd ∨ n = 0 ∧ ∃ a ∈ first :: tr.map fun e => e.2.1, a.fd = 0) ∧
    s.2.infos.card =
      ((first :: tr.map fun e => e.2.1).flatMap Acquisition.failures).count true + 1 ∧
    s.2.wild = 0 := by
  have hrun : ∀ {acquisitions : List Acquisition} {s s' : UDPConn × Host}
      {tr : List ((UDPConn × Host) × Acquisition × (UDPConn × Host))},
      Keeps acquisitions s → Path (ResetStep rt_) s tr s' →
      Keeps (acquisitions ++ tr.map fun e => e.2.1) s' := by
    intro acquisitions s s' tr hkeeps path
    induction path generalizing acquisitions with
    | nil =>
        rw [List.map_nil, List.append_nil]
        exact hkeeps
    | cons hstep tail ih =>
        have hrest := ih (hkeeps.reset hrt hstep)
        rwa [List.append_assoc] at hrest
  have hkeeps := hrun (keeps_new hrt first) path
  obtain ⟨fd, hfd, -, hfds⟩ := hkeeps.fd
  exact ⟨⟨fd, hfd, hfds⟩, hkeeps.infos, hkeeps.wild⟩

/-- Two attempts without a socket before the first one with the descriptor 0, and a reset. -/
theorem udp_ledger_reset : ∃ s : UDPConn × Host, s.1.fd_ = 4 ∧ s.2.fds = {0, 4} ∧
    s.2.infos.card = 3 := by
  have hstep : ResetStep 10 (UDPConn.new 10 (Acquisition.openings ⟨[true, false, true], 0⟩) .empty)
      ⟨[], 4⟩ (UDPConn.reset 10 (Acquisition.openings ⟨[], 4⟩)
        (UDPConn.new 10 (Acquisition.openings ⟨[true, false, true], 0⟩) .empty).1
        (UDPConn.new 10 (Acquisition.openings ⟨[true, false, true], 0⟩) .empty).2) :=
    ⟨by decide, rfl⟩
  obtain ⟨⟨fd, hfd, hfds⟩, hinfos, -⟩ := udp_ledger (by decide) (.cons hstep (.nil _))
  obtain rfl : fd = 4 := by
    have hnew : ((4 : Nat) : Int) = fd := hfd
    omega
  refine ⟨_, hfd, ?_, hinfos⟩
  ext n
  rw [hfds n]
  simp
  omega

/-! ### TLS -/

/-- `sslWaitOn` calls its function once, and after an error that asks for it again every ten
milliseconds, until it succeeds or the time is over; other errors do not end the loop. -/
theorem sslWaitOn_iff (timeoutSec : Nat) (fn : Nat → Int) (wants : Bool) :
    ((sslWaitOn timeoutSec fn wants).1 ≥ 0 ↔
      fn 0 ≥ 0 ∨ wants ∧ ∃ k ≤ 100 * timeoutSec, fn k ≥ 0) ∧
    (sslWaitOn timeoutSec fn wants).2 ≤ 100 * timeoutSec + 1 := by
  have hturns : timeoutSec * 1000000 / 10000 = 100 * timeoutSec := by omega
  have hwait : ∀ turns calls : Nat, 0 < calls → (∀ k < calls, fn k < 0) →
      ((sslWaitOn.wait fn turns calls).1 ≥ 0 ↔ ∃ k < calls + turns, fn k ≥ 0) ∧
        (sslWaitOn.wait fn turns calls).2 ≤ calls + turns := by
    intro turns
    induction turns with
    | zero =>
        intro calls hpos hall
        have hlast := hall (calls - 1) (by omega)
        rw [sslWaitOn.wait]
        refine ⟨⟨fun hge => absurd hge (by omega), ?_⟩, Nat.le_refl _⟩
        rintro ⟨k, hk, hge⟩
        have hlt := hall k (by omega)
        omega
    | succ turns ih =>
        intro calls hpos hall
        rw [sslWaitOn.wait]
        by_cases hcall : fn calls ≥ 0
        · rw [if_pos hcall]
          exact ⟨⟨fun _ => ⟨calls, by omega, hcall⟩, fun _ => hcall⟩, by dsimp only; omega⟩
        · rw [if_neg hcall]
          obtain ⟨hiff, hle⟩ := ih (calls + 1) (by omega) (by
            intro k hk
            rcases Nat.lt_succ_iff_lt_or_eq.mp hk with hk | rfl
            · exact hall k hk
            · omega)
          have hsum : calls + 1 + turns = calls + (turns + 1) := by omega
          rw [hsum] at hiff hle
          exact ⟨hiff, hle⟩
  unfold sslWaitOn
  rw [hturns]
  by_cases hfirst : fn 0 ≥ 0
  · simp [hfirst]
  · cases wants with
    | false => simp [hfirst]
    | true =>
        obtain ⟨hiff, hle⟩ := hwait (100 * timeoutSec) 1 Nat.one_pos (by
          intro k hk
          obtain rfl : k = 0 := by omega
          omega)
        rw [if_neg (by simpa using hfirst)]
        refine ⟨hiff.trans ?_, by omega⟩
        constructor
        · rintro ⟨k, hk, hge⟩
          exact Or.inr ⟨rfl, k, by omega, hge⟩
        · rintro (hge | ⟨-, k, hk, hge⟩)
          · exact absurd hge hfirst
          · exact ⟨k, by omega, hge⟩

/-- How an attempt changes what the host has. -/
theorem openSSLConn_cases (o : Opening) (connecting : Connecting) (x : Handshake)
    (hh : h.Numbered) (hfresh : ∀ fd, o = .socket fd → fd ∉ h.fds) :
    (o = .noAddress ∧ openSSLConn o connecting x h = (none, { h with wild := h.wild + 1 })) ∨
    (∃ fd, o = .socket fd ∧ connecting = .timeout ∧
      openSSLConn o connecting x h = (none, h.getaddrinfo.2.open fd)) ∨
    (∃ fd, o = .socket fd ∧ connecting = .connected ∧ openSSLConn o connecting x h =
      (some fd, { h.open fd with allocated := h.allocated + 1, ssls := h.ssls + 1 })) ∨
    (o ≠ .noAddress ∧ (∀ fd, o = .socket fd → connecting ≠ .timeout) ∧
      openSSLConn o connecting x h = (none, { h with allocated := h.allocated + 1 })) := by
  have hfree : (Insert.insert h.allocated h.infos).erase h.allocated = h.infos :=
    Finset.erase_insert hh.not_mem
  cases o with
  | noAddress => exact Or.inl ⟨rfl, by simp [openSSLConn, openTCP, open_sock_, Host.freeaddrinfo]⟩
  | noSocket =>
      refine Or.inr (Or.inr (Or.inr ⟨by simp, by simp, ?_⟩))
      simp [openSSLConn, openTCP, open_sock_, Host.getaddrinfo, Host.freeaddrinfo, hfree]
  | socket fd =>
      have hfd : ¬ (fd : Int) < 0 := by omega
      have hclose : (Insert.insert fd h.fds).erase fd = h.fds := Finset.erase_insert (hfresh fd rfl)
      cases connecting with
      | timeout =>
          refine Or.inr (Or.inl ⟨fd, rfl, rfl, ?_⟩)
          simp [openSSLConn, openTCP, open_sock_, hfd]
      | refused =>
          refine Or.inr (Or.inr (Or.inr ⟨by simp, by simp, ?_⟩))
          simp [openSSLConn, openTCP, open_sock_, hfd, Host.getaddrinfo, Host.freeaddrinfo,
            Host.open, Host.close, hfree, hclose]
      | connected =>
          by_cases hx : x.Succeeds
          · refine Or.inr (Or.inr (Or.inl ⟨fd, rfl, rfl, ?_⟩))
            simp [openSSLConn, openTCP, open_sock_, hfd, Host.getaddrinfo, Host.freeaddrinfo,
              Host.open, hfree, hx]
          · refine Or.inr (Or.inr (Or.inr ⟨by simp, by simp, ?_⟩))
            simp [openSSLConn, openTCP, open_sock_, hfd, Host.getaddrinfo, Host.freeaddrinfo,
              Host.open, Host.close, hfree, hclose, hx]

end

section

variable {T : Type*} [Fintype T] [DecidableEq T]

/-- The threads that have a connection. -/
def State.connected (s : State T) : Finset T := Finset.univ.filter fun t => (s.ssl t).isSome

/-- What the host has after some attempts that timed out and some that had no address. -/
structure Ledger (timeouts lookups : Nat) (s : State T) : Prop where
  fds : ∃ lost : Finset Nat, lost.card = timeouts ∧
    (∀ fd, fd ∈ s.host.fds ↔ fd ∈ lost ∨ ∃ t, s.ssl t = some fd) ∧
    ∀ t fd, s.ssl t = some fd → fd ∉ lost
  apart : ∀ t u fd, s.ssl t = some fd → s.ssl u = some fd → t = u
  infos : s.host.infos.card = timeouts
  numbered : s.host.Numbered
  wild : s.host.wild = lookups
  ssls : s.host.ssls = s.connected.card

variable {timeouts lookups : Nat} {s : State T}

omit [DecidableEq T] in
theorem ledger_init : Ledger 0 0 (init : State T) where
  fds := ⟨∅, rfl, by simp [init, Host.empty], by simp⟩
  apart := by simp [init]
  infos := rfl
  numbered i hi := by cases hi
  wild := rfl
  ssls := by simp [init, Host.empty, State.connected]

/-- An attempt that leaves the connections as they are. -/
theorem Ledger.failed {t : T} {host : Host} {n m : Nat} (hledger : Ledger timeouts lookups s)
    (ht : s.ssl t = none) (hfds : ∃ lost : Finset Nat, lost.card = n ∧
      (∀ fd, fd ∈ host.fds ↔ fd ∈ lost ∨ ∃ t, s.ssl t = some fd) ∧
      ∀ t fd, s.ssl t = some fd → fd ∉ lost)
    (hinfos : host.infos.card = n) (hnumbered : host.Numbered) (hwild : host.wild = m)
    (hssls : host.ssls = s.host.ssls) : Ledger n m ⟨host, Function.update s.ssl t none⟩ := by
  have hsame : Function.update s.ssl t none = s.ssl := Function.update_eq_self_iff.mpr ht.symm
  rw [hsame]
  exact ⟨hfds, hledger.apart, hinfos, hnumbered, hwild, hssls.trans hledger.ssls⟩

/-- An attempt that succeeds. -/
theorem Ledger.succeeded {t : T} {fd : Nat} (hledger : Ledger timeouts lookups s)
    (ht : s.ssl t = none) (hfresh : fd ∉ s.host.fds) :
    Ledger timeouts lookups
      ⟨{ s.host.open fd with allocated := s.host.allocated + 1, ssls := s.host.ssls + 1 },
        Function.update s.ssl t (some fd)⟩ := by
  obtain ⟨lost, hcard, hfds, hlost⟩ := hledger.fds
  have hupdate : ∀ u n, Function.update s.ssl t (some fd) u = some n ↔
      u = t ∧ n = fd ∨ s.ssl u = some n := by
    intro u n
    by_cases hut : u = t
    · subst hut
      simp [ht, eq_comm]
    · rw [Function.update_of_ne hut]
      simp [hut]
  have hnew : ∀ u, s.ssl u ≠ some fd := fun u hu => hfresh ((hfds fd).mpr (Or.inr ⟨u, hu⟩))
  refine ⟨⟨lost, hcard, fun n => ?_, fun u n hu => ?_⟩, fun u v n hu hv => ?_, hledger.infos, ?_,
    hledger.wild, ?_⟩
  · show n ∈ Insert.insert fd s.host.fds ↔ n ∈ lost ∨
      ∃ u, Function.update s.ssl t (some fd) u = some n
    rw [Finset.mem_insert, hfds]
    constructor
    · rintro (rfl | hn | ⟨u, hu⟩)
      · exact Or.inr ⟨t, (hupdate t n).mpr (Or.inl ⟨rfl, rfl⟩)⟩
      · exact Or.inl hn
      · exact Or.inr ⟨u, (hupdate u n).mpr (Or.inr hu)⟩
    · rintro (hn | ⟨u, hu⟩)
      · exact Or.inr (Or.inl hn)
      · rcases (hupdate u n).mp hu with ⟨-, rfl⟩ | hu
        · exact Or.inl rfl
        · exact Or.inr (Or.inr ⟨u, hu⟩)
  · rcases (hupdate u n).mp hu with ⟨-, rfl⟩ | hu
    · exact fun hmem => hfresh ((hfds n).mpr (Or.inl hmem))
    · exact hlost u n hu
  · rcases (hupdate u n).mp hu with ⟨hut, hn⟩ | hu' <;>
      rcases (hupdate v n).mp hv with ⟨hvt, hn'⟩ | hv'
    · rw [hut, hvt]
    · exact absurd (hn ▸ hv') (hnew v)
    · exact absurd (hn' ▸ hu') (hnew u)
    · exact hledger.apart u v n hu' hv'
  · exact fun i hi => Nat.lt_succ_of_lt (hledger.numbered i hi)
  · have hconnected : State.connected (⟨{ s.host.open fd with
          allocated := s.host.allocated + 1, ssls := s.host.ssls + 1 },
        Function.update s.ssl t (some fd)⟩ : State T) = Insert.insert t s.connected := by
      ext u
      by_cases hut : u = t
      · simp [State.connected, hut]
      · simp [State.connected, hut]
    rw [hconnected, Finset.card_insert_of_notMem (by simp [State.connected, ht]), ← hledger.ssls]

/-- A connection is closed. -/
theorem Ledger.free {t : T} {fd : Nat} (hledger : Ledger timeouts lookups s)
    (ht : s.ssl t = some fd) :
    Ledger timeouts lookups ⟨closeSSL (some fd) s.host, Function.update s.ssl t none⟩ := by
  obtain ⟨lost, hcard, hfds, hlost⟩ := hledger.fds
  have hupdate : ∀ u n, Function.update s.ssl t none u = some n ↔ u ≠ t ∧ s.ssl u = some n := by
    intro u n
    by_cases hut : u = t
    · simp [hut]
    · rw [Function.update_of_ne hut]
      simp [hut]
  refine ⟨⟨lost, hcard, fun n => ?_, fun u n hu => hlost u n ((hupdate u n).mp hu).2⟩,
    fun u v n hu hv => hledger.apart u v n ((hupdate u n).mp hu).2 ((hupdate v n).mp hv).2,
    hledger.infos, hledger.numbered, hledger.wild, ?_⟩
  · show n ∈ s.host.fds.erase fd ↔ n ∈ lost ∨ ∃ u, Function.update s.ssl t none u = some n
    rw [Finset.mem_erase, hfds]
    constructor
    · rintro ⟨hn, hmem | ⟨u, hu⟩⟩
      · exact Or.inl hmem
      · have hut : u ≠ t := by
          rintro rfl
          exact hn (Option.some.inj (hu.symm.trans ht))
        exact Or.inr ⟨u, (hupdate u n).mpr ⟨hut, hu⟩⟩
    · rintro (hmem | ⟨u, hu⟩)
      · refine ⟨?_, Or.inl hmem⟩
        rintro rfl
        exact hlost t n ht hmem
      · obtain ⟨hut, hu⟩ := (hupdate u n).mp hu
        refine ⟨?_, Or.inr ⟨u, hu⟩⟩
        rintro rfl
        exact hut (hledger.apart u t n hu ht)
  · have hconnected : State.connected
        (⟨closeSSL (some fd) s.host, Function.update s.ssl t none⟩ : State T) =
          s.connected.erase t := by
      ext u
      by_cases hut : u = t
      · simp [State.connected, hut]
      · simp [State.connected, hut]
    rw [hconnected, Finset.card_erase_of_mem (by simp [State.connected, ht]), ← hledger.ssls]
    rfl

/-- What one action adds to the ledger. -/
theorem Ledger.step {a : Action T} {s' : State T} (hledger : Ledger timeouts lookups s)
    (hstep : Step s a s') :
    Ledger (timeouts + if a.timesOut then 1 else 0)
      (lookups + if a.noAddress then 1 else 0) s' := by
  obtain ⟨henabled, rfl⟩ := hstep
  cases a with
  | free t =>
      obtain ⟨fd, hfd⟩ := Option.isSome_iff_exists.mp henabled
      show Ledger timeouts lookups ⟨closeSSL (s.ssl t) s.host, Function.update s.ssl t none⟩
      rw [hfd]
      exact hledger.free hfd
  | attempt t a =>
      obtain ⟨o, connecting, x⟩ := a
      obtain ⟨ht, hfresh⟩ := henabled
      obtain ⟨lost, hcard, hfds, hlost⟩ := hledger.fds
      rcases openSSLConn_cases o connecting x hledger.numbered hfresh with
        ⟨rfl, heq⟩ | ⟨fd, rfl, rfl, heq⟩ | ⟨fd, rfl, rfl, heq⟩ | ⟨hsome, htime, heq⟩
      · simp only [next, heq]
        exact hledger.failed ht ⟨lost, hcard, hfds, hlost⟩ hledger.infos hledger.numbered
          (congrArg (· + 1) hledger.wild) rfl
      · simp only [next, heq]
        apply hledger.failed ht
        · refine ⟨Insert.insert fd lost, ?_, fun n => ?_, fun u n hu => ?_⟩
          · rw [Finset.card_insert_of_notMem, hcard]
            · rfl
            · exact fun hmem => hfresh fd rfl ((hfds fd).mpr (Or.inl hmem))
          · show n ∈ Insert.insert fd s.host.fds ↔ _
            rw [Finset.mem_insert, Finset.mem_insert, hfds, or_assoc]
          · rw [Finset.mem_insert, not_or]
            refine ⟨?_, hlost u n hu⟩
            rintro rfl
            exact hfresh n rfl ((hfds n).mpr (Or.inr ⟨u, hu⟩))
        · show (Insert.insert s.host.allocated s.host.infos).card = _
          rw [Finset.card_insert_of_notMem hledger.numbered.not_mem, hledger.infos]
          rfl
        · exact fun i hi => hledger.numbered.insert hi
        · exact hledger.wild
        · rfl
      · simp only [next, heq]
        exact hledger.succeeded ht (hfresh fd rfl)
      · have htimesOut : (Action.attempt t ⟨o, connecting, x⟩ : Action T).timesOut = false := by
          cases o with
          | socket fd =>
              cases connecting with
              | timeout => exact absurd rfl (htime fd rfl)
              | _ => rfl
          | _ => rfl
        have hnoAddress : (Action.attempt t ⟨o, connecting, x⟩ : Action T).noAddress = false := by
          cases o with
          | noAddress => exact absurd rfl hsome
          | _ => rfl
        rw [htimesOut, hnoAddress]
        simp only [next, heq]
        exact hledger.failed ht ⟨lost, hcard, hfds, hlost⟩ hledger.infos
          (fun i hi => Nat.lt_succ_of_lt (hledger.numbered i hi)) hledger.wild rfl

/-- In every run, whatever the threads do, the host has one socket and one SSL structure for
each connection, and one socket and one address list more for each attempt that timed out;
and it has freed a pointer that was never set for each attempt without an address. -/
theorem tls_ledger {tr : List (State T × Action T × State T)} (path : Path Step init tr s) :
    s.host.fds.card = s.connected.card + tr.countP (fun e => e.2.1.timesOut) ∧
    s.host.infos.card = tr.countP (fun e => e.2.1.timesOut) ∧
    s.host.ssls = s.connected.card ∧
    s.host.wild = tr.countP fun e => e.2.1.noAddress := by
  have hrun : ∀ {n m : Nat} {s s' : State T} {tr : List (State T × Action T × State T)},
      Ledger n m s → Path Step s tr s' →
      Ledger (n + tr.countP fun e => e.2.1.timesOut)
        (m + tr.countP fun e => e.2.1.noAddress) s' := by
    intro n m s s' tr hledger path
    induction path generalizing n m with
    | nil => exact hledger
    | @cons s a t tr u hstep tail ih =>
        have hrest := ih (hledger.step hstep)
        rw [List.countP_cons, List.countP_cons]
        dsimp only
        convert hrest using 1
        · omega
        · omega
  have hledger := hrun ledger_init path
  rw [Nat.zero_add, Nat.zero_add] at hledger
  obtain ⟨lost, hcard, hfds, hlost⟩ := hledger.fds
  refine ⟨?_, hledger.infos, hledger.ssls, hledger.wild⟩
  have hunion : s.host.fds = lost ∪ s.connected.image fun t => (s.ssl t).getD 0 := by
    ext fd
    rw [hfds, Finset.mem_union, Finset.mem_image]
    apply or_congr Iff.rfl
    constructor
    · rintro ⟨t, ht⟩
      exact ⟨t, by simp [State.connected, ht], by simp [ht]⟩
    · rintro ⟨t, ht, rfl⟩
      obtain ⟨fd, hfd⟩ := Option.isSome_iff_exists.mp (Finset.mem_filter.mp ht).2
      exact ⟨t, by simp [hfd]⟩
  have hdisjoint : Disjoint lost (s.connected.image fun t => (s.ssl t).getD 0) := by
    rw [Finset.disjoint_right]
    intro fd hfd
    obtain ⟨t, ht, rfl⟩ := Finset.mem_image.mp hfd
    obtain ⟨fd, hfd⟩ := Option.isSome_iff_exists.mp (Finset.mem_filter.mp ht).2
    rw [hfd]
    exact hlost t fd hfd
  rw [hunion, Finset.card_union_of_disjoint hdisjoint, Finset.card_image_of_injOn, hcard,
    Nat.add_comm]
  intro t ht u hu heq
  obtain ⟨fd, hfd⟩ := Option.isSome_iff_exists.mp (Finset.mem_filter.mp ht).2
  obtain ⟨fd', hfd'⟩ := Option.isSome_iff_exists.mp (Finset.mem_filter.mp hu).2
  have hsame : fd = fd' := by simpa [hfd, hfd'] using heq
  exact hledger.apart t u fd hfd (hsame ▸ hfd')

end

/-- An attempt that times out, one without an address, and one that succeeds. -/
theorem tls_ledger_retry : ∃ s : State Unit, s.ssl () = some 5 ∧ s.host.fds.card = 2 ∧
    s.host.infos.card = 1 ∧ s.host.wild = 1 := by
  let x : Handshake := ⟨fun _ => 1, false, true, fun _ => 1, false⟩
  let late : Action Unit := .attempt () ⟨.socket 4, .timeout, x⟩
  let lost : Action Unit := .attempt () ⟨.noAddress, .refused, x⟩
  let good : Action Unit := .attempt () ⟨.socket 5, .connected, x⟩
  have hlate : Step init late (next init late) := by
    refine ⟨⟨rfl, ?_⟩, rfl⟩
    intro fd _ hmem
    cases hmem
  have hlost : Step (next init late) lost (next (next init late) lost) := by
    refine ⟨⟨rfl, ?_⟩, rfl⟩
    rintro fd ⟨⟩
  have hgood : Step (next (next init late) lost) good
      (next (next (next init late) lost) good) := by
    refine ⟨⟨rfl, ?_⟩, rfl⟩
    rintro fd ⟨⟩
    decide
  obtain ⟨hfds, hinfos, -, hwild⟩ :=
    tls_ledger (.cons hlate (.cons hlost (.cons hgood (.nil _))))
  refine ⟨_, rfl, ?_, hinfos, hwild⟩
  rw [hfds]
  rfl

end KappaGateway.Connections
