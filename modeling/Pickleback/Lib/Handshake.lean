import Mathlib.Data.List.Nodup
import Mathlib.Data.List.Perm.Basic
import Mathlib.Logic.Relation

/-!
# Handshakes with two salts

Any number of clients and one server. A client draws a salt and asks to be let in; the server draws
another salt and offers it; the client answers the first offer it sees; the server turns an open
offer for which there is an answer into a session; and a client that hears of its session is
connected. Answers and news of a session carry the two salts combined by some function `f` and
nothing else.

The state keeps everything that was ever said, so a step may use what was said at any time before:
messages may be lost, repeated, reordered and delayed. Clients may start over at any time, and the
server may make several offers for one request and withdraw any of them.

If no salt is drawn twice and `f` tells the drawn pairs apart, then both sides agree: a client is
connected in a session of its own, and no two sessions come from the same draw.

## Main definitions

* `State`, `Step` — the handshakes
* `Distinct` — the luck of the draw
* `Sound` — the invariant

## Main results

* `Sound.step` — every step keeps the invariant
* `sound_of_steps` — it holds after any steps
* `Sound.nodup_combined`, `Sound.nodup_clientSalts` — what it says of sessions
-/

namespace Handshake

variable {ι K : Type}

/-- A client with the salt it drew and a salt that it was offered. -/
structure Ticket (ι K : Type) where
  owner : ι
  clientSalt : K
  serverSalt : K

/-- The two salts of a ticket, combined. -/
def Ticket.combined (f : K → K → K) (t : Ticket ι K) : K := f t.clientSalt t.serverSalt

/-- How far a client has come. -/
inductive Phase (K : Type) where
  | idle
  | requesting (clientSalt : K)
  | answered (clientSalt serverSalt : K)
  | connected (clientSalt serverSalt : K)

/-- All attempts, offers, answers and sessions there have been, the offers still open, and the
phases of the clients. -/
structure State (ι K : Type) where
  attempts : List (ι × K)
  offers : List (Ticket ι K)
  pending : List (Ticket ι K)
  answers : List (Ticket ι K)
  sessions : List (Ticket ι K)
  phase : ι → Phase K

/-- Nothing has been said. -/
def State.start : State ι K := ⟨[], [], [], [], [], fun _ => .idle⟩

/-- One step of a client or of the server. -/
inductive Step [DecidableEq ι] (f : K → K → K) : State ι K → State ι K → Prop
  | attempt (σ : State ι K) (i : ι) (c : K) : Step f σ { σ with
      attempts := σ.attempts ++ [(i, c)]
      phase := Function.update σ.phase i (.requesting c) }
  | offer (σ : State ι K) {i : ι} {c : K} (s : K) (hattempt : (i, c) ∈ σ.attempts) :
    Step f σ { σ with
      offers := σ.offers ++ [⟨i, c, s⟩]
      pending := σ.pending ++ [⟨i, c, s⟩] }
  | answer {σ : State ι K} {i : ι} {t : Ticket ι K} (hphase : σ.phase i = .requesting t.clientSalt)
      (hoffer : t ∈ σ.offers) : Step f σ { σ with
      answers := σ.answers ++ [t]
      phase := Function.update σ.phase i (.answered t.clientSalt t.serverSalt) }
  | close {σ : State ι K} {pending : List (Ticket ι K)} (hsub : pending.Sublist σ.pending) :
      Step f σ { σ with pending := pending }
  | accept {σ : State ι K} {t t' : Ticket ι K} {before after : List (Ticket ι K)}
      (hpending : σ.pending = before ++ t :: after) (hanswer : t' ∈ σ.answers)
      (heq : t'.combined f = t.combined f) : Step f σ { σ with
      pending := before ++ after
      sessions := σ.sessions ++ [t] }
  | confirm {σ : State ι K} {i : ι} {c s : K} {t : Ticket ι K} (hphase : σ.phase i = .answered c s)
      (hsession : t ∈ σ.sessions) (heq : t.combined f = f c s) : Step f σ { σ with
      phase := Function.update σ.phase i (.connected c s) }
  | leave (σ : State ι K) (i : ι) : Step f σ { σ with phase := Function.update σ.phase i .idle }

/-- No salt was drawn twice by either side, and the drawn pairs are told apart when combined. -/
structure Distinct (f : K → K → K) (σ : State ι K) : Prop where
  clientSalts : (σ.attempts.map Prod.snd).Nodup
  serverSalts : (σ.offers.map Ticket.serverSalt).Nodup
  combined : ∀ c ∈ σ.attempts.map Prod.snd, ∀ s ∈ σ.offers.map Ticket.serverSalt,
    ∀ c' ∈ σ.attempts.map Prod.snd, ∀ s' ∈ σ.offers.map Ticket.serverSalt, f c s = f c' s' →
      c = c' ∧ s = s'

/-- More has been said. -/
structure Grows (σ σ' : State ι K) : Prop where
  attempts : σ.attempts.Sublist σ'.attempts
  offers : σ.offers.Sublist σ'.offers
  answers : σ.answers.Sublist σ'.answers
  sessions : σ.sessions.Sublist σ'.sessions

/-- What holds after any steps. -/
structure Sound (σ : State ι K) : Prop where
  offers : ∀ t ∈ σ.offers, (t.owner, t.clientSalt) ∈ σ.attempts
  answers : ∀ t ∈ σ.answers, t ∈ σ.offers
  /-- A client answers once for each salt that it draws. -/
  once : (σ.answers.map Ticket.clientSalt).Nodup
  sessions : ∀ t ∈ σ.sessions, t ∈ σ.answers
  pending : ∀ t ∈ σ.pending, t ∈ σ.offers
  /-- What has become a session is no longer open, and no session is held twice. -/
  apart : (σ.sessions ++ σ.pending).Nodup
  requesting : ∀ i c, σ.phase i = .requesting c →
    (i, c) ∈ σ.attempts ∧ ∀ t ∈ σ.answers, t.clientSalt ≠ c
  answered : ∀ i c s, σ.phase i = .answered c s → ⟨i, c, s⟩ ∈ σ.answers
  connected : ∀ i c s, σ.phase i = .connected c s → ⟨i, c, s⟩ ∈ σ.sessions

theorem sound_start : Sound (State.start : State ι K) where
  offers := by simp [State.start]
  answers := by simp [State.start]
  once := by simp [State.start]
  sessions := by simp [State.start]
  pending := by simp [State.start]
  apart := by simp [State.start]
  requesting := by simp [State.start]
  answered := by simp [State.start]
  connected := by simp [State.start]

section Results

variable {f : K → K → K} {σ σ' : State ι K}

theorem Grows.refl (σ : State ι K) : Grows σ σ := ⟨.refl _, .refl _, .refl _, .refl _⟩

theorem Grows.trans {σ'' : State ι K} (h : Grows σ σ') (h' : Grows σ' σ'') : Grows σ σ'' :=
  ⟨h.attempts.trans h'.attempts, h.offers.trans h'.offers, h.answers.trans h'.answers,
    h.sessions.trans h'.sessions⟩

/-- Draws that are distinct now always were. -/
theorem Distinct.of_grows (hgrows : Grows σ σ') (hd : Distinct f σ') : Distinct f σ := by
  have hattempts := hgrows.attempts.map Prod.snd
  have hoffers := hgrows.offers.map Ticket.serverSalt
  refine ⟨hd.clientSalts.sublist hattempts, hd.serverSalts.sublist hoffers, ?_⟩
  intro c hc s hs c' hc' s' hs' heq
  exact hd.combined c (hattempts.subset hc) s (hoffers.subset hs) c' (hattempts.subset hc') s'
    (hoffers.subset hs') heq

/-- Each salt was drawn by one client only. -/
theorem Distinct.owner_eq (hd : Distinct f σ) {i j : ι} {c : K} (hi : (i, c) ∈ σ.attempts)
    (hj : (j, c) ∈ σ.attempts) : i = j :=
  congrArg Prod.fst (List.inj_on_of_nodup_map hd.clientSalts hi hj rfl)

/-- **Combined salts identify an offer.** -/
theorem Sound.ticket_eq (h : Sound σ) (hd : Distinct f σ) {t t' : Ticket ι K} (ht : t ∈ σ.offers)
    (ht' : t' ∈ σ.offers) (heq : t.combined f = t'.combined f) : t = t' := by
  have hattempt := h.offers t ht
  have hattempt' := h.offers t' ht'
  obtain ⟨hc, hs⟩ := hd.combined _ (List.mem_map_of_mem hattempt) _ (List.mem_map_of_mem ht) _
    (List.mem_map_of_mem hattempt') _ (List.mem_map_of_mem ht') heq
  obtain ⟨i, c, s⟩ := t
  obtain ⟨j, c', s'⟩ := t'
  obtain rfl : c = c' := hc
  obtain rfl : s = s' := hs
  obtain rfl : i = j := hd.owner_eq hattempt hattempt'
  rfl

/-- **The ids of sessions** are all different. -/
theorem Sound.nodup_combined (h : Sound σ) (hd : Distinct f σ) :
    (σ.sessions.map (Ticket.combined f)).Nodup := by
  refine List.Nodup.map_on ?_ (List.nodup_append.mp h.apart).1
  intro t ht t' ht' heq
  exact h.ticket_eq hd (h.answers t (h.sessions t ht)) (h.answers t' (h.sessions t' ht')) heq

/-- **Each salt that a client draws** is in one session at most. -/
theorem Sound.nodup_clientSalts (h : Sound σ) : (σ.sessions.map Ticket.clientSalt).Nodup := by
  refine List.Nodup.map_on ?_ (List.nodup_append.mp h.apart).1
  intro t ht t' ht' heq
  exact List.inj_on_of_nodup_map h.once (h.sessions t ht) (h.sessions t' ht') heq

theorem Sound.offer (h : Sound σ) {i : ι} {c s : K} (hattempt : (i, c) ∈ σ.attempts)
    (hfresh : s ∉ σ.offers.map Ticket.serverSalt) : Sound { σ with
      offers := σ.offers ++ [⟨i, c, s⟩]
      pending := σ.pending ++ [⟨i, c, s⟩] } where
  offers := by
    intro t ht
    rcases List.mem_append.mp ht with ht | ht
    · exact h.offers t ht
    · rw [List.mem_singleton.mp ht]
      exact hattempt
  answers t ht := List.mem_append_left _ (h.answers t ht)
  once := h.once
  sessions := h.sessions
  pending := by
    intro t ht
    rcases List.mem_append.mp ht with ht | ht
    · exact List.mem_append_left _ (h.pending t ht)
    · exact List.mem_append_right _ ht
  apart := by
    rw [← List.append_assoc, List.nodup_append]
    refine ⟨h.apart, List.nodup_singleton _, ?_⟩
    rintro t ht t' ht' rfl
    -- the offer is new, since its salt is
    rw [List.mem_singleton.mp ht'] at ht
    have hold : (⟨i, c, s⟩ : Ticket ι K) ∈ σ.offers := by
      rcases List.mem_append.mp ht with ht | ht
      · exact h.answers _ (h.sessions _ ht)
      · exact h.pending _ ht
    exact hfresh (List.mem_map_of_mem (f := Ticket.serverSalt) hold)
  requesting := h.requesting
  answered := h.answered
  connected := h.connected

theorem Sound.accept (h : Sound σ) (hd : Distinct f σ) {t t' : Ticket ι K}
    {before after : List (Ticket ι K)}
    (hpending : σ.pending = before ++ t :: after) (hanswer : t' ∈ σ.answers)
    (heq : t'.combined f = t.combined f) : Sound { σ with
      pending := before ++ after
      sessions := σ.sessions ++ [t] } := by
  have ht : t ∈ σ.pending := by
    rw [hpending]
    exact List.mem_append_right _ (List.mem_cons_self ..)
  have hsame : t' = t := h.ticket_eq hd (h.answers t' hanswer) (h.pending t ht) heq
  refine ⟨h.offers, h.answers, h.once, ?_, ?_, ?_, h.requesting, h.answered, ?_⟩
  · intro u hu
    rcases List.mem_append.mp hu with hu | hu
    · exact h.sessions u hu
    · rw [List.mem_singleton.mp hu, ← hsame]
      exact hanswer
  · intro u hu
    refine h.pending u ?_
    rw [hpending]
    rcases List.mem_append.mp hu with hu | hu
    · exact List.mem_append_left _ hu
    · exact List.mem_append_right _ (List.mem_cons_of_mem _ hu)
  · refine (List.Perm.nodup_iff ?_).mp h.apart
    rw [hpending, List.append_assoc, List.singleton_append]
    exact List.Perm.append_left _ List.perm_middle
  · intro i c s hphase
    exact List.mem_append_left _ (h.connected i c s hphase)

variable [DecidableEq ι]

/-- **A step** adds to what was said and takes nothing back. -/
theorem Step.grows (hstep : Step f σ σ') : Grows σ σ' := by
  cases hstep with
  | attempt i c => exact ⟨List.sublist_append_left _ _, .refl _, .refl _, .refl _⟩
  | offer s hattempt => exact ⟨.refl _, List.sublist_append_left _ _, .refl _, .refl _⟩
  | answer hphase hoffer => exact ⟨.refl _, .refl _, List.sublist_append_left _ _, .refl _⟩
  | accept hpending hanswer heq => exact ⟨.refl _, .refl _, .refl _, List.sublist_append_left _ _⟩
  | _ => exact ⟨.refl _, .refl _, .refl _, .refl _⟩

theorem grows_of_steps (hsteps : Relation.ReflTransGen (Step f) σ σ') : Grows σ σ' := by
  induction hsteps with
  | refl => exact .refl σ
  | tail _ hstep ih => exact ih.trans hstep.grows

/-- The phase of one client changes. -/
theorem phase_update {phase : ι → Phase K} {i j : ι} {a b : Phase K}
    (h : Function.update phase i a j = b) : (j = i ∧ a = b) ∨ (j ≠ i ∧ phase j = b) := by
  by_cases hij : j = i
  · subst hij
    rw [Function.update_self] at h
    exact Or.inl ⟨rfl, h⟩
  · rw [Function.update_of_ne hij] at h
    exact Or.inr ⟨hij, h⟩

theorem Sound.attempt (h : Sound σ) {i : ι} {c : K} (hfresh : c ∉ σ.attempts.map Prod.snd) :
    Sound { σ with
      attempts := σ.attempts ++ [(i, c)]
      phase := Function.update σ.phase i (.requesting c) } where
  offers t ht := List.mem_append_left _ (h.offers t ht)
  answers := h.answers
  once := h.once
  sessions := h.sessions
  pending := h.pending
  apart := h.apart
  requesting := by
    intro j c' hphase
    obtain ⟨rfl, heq⟩ | ⟨-, hphase⟩ := phase_update hphase
    · cases heq
      refine ⟨List.mem_append_right _ (List.mem_singleton_self _), ?_⟩
      rintro t ht rfl
      exact hfresh (List.mem_map_of_mem (h.offers t (h.answers t ht)))
    · obtain ⟨hmem, hanswers⟩ := h.requesting j c' hphase
      exact ⟨List.mem_append_left _ hmem, hanswers⟩
  answered := by
    intro j c' s' hphase
    obtain ⟨-, heq⟩ | ⟨-, hphase⟩ := phase_update hphase
    · cases heq
    · exact h.answered j c' s' hphase
  connected := by
    intro j c' s' hphase
    obtain ⟨-, heq⟩ | ⟨-, hphase⟩ := phase_update hphase
    · cases heq
    · exact h.connected j c' s' hphase

theorem Sound.answer (h : Sound σ) (hd : Distinct f σ) {i : ι} {t : Ticket ι K}
    (hphase : σ.phase i = .requesting t.clientSalt) (hoffer : t ∈ σ.offers) : Sound { σ with
      answers := σ.answers ++ [t]
      phase := Function.update σ.phase i (.answered t.clientSalt t.serverSalt) } := by
  obtain ⟨hattempt, hnone⟩ := h.requesting i _ hphase
  have howner : t.owner = i := hd.owner_eq (h.offers t hoffer) hattempt
  refine ⟨h.offers, ?_, ?_, fun t' ht' => List.mem_append_left _ (h.sessions t' ht'),
    h.pending, h.apart, ?_, ?_, ?_⟩
  · intro t' ht'
    rcases List.mem_append.mp ht' with ht' | ht'
    · exact h.answers t' ht'
    · rw [List.mem_singleton.mp ht']
      exact hoffer
  · rw [List.map_append, List.nodup_append]
    refine ⟨h.once, List.nodup_singleton _, ?_⟩
    rintro c hc c' hc' rfl
    obtain ⟨t', ht', rfl⟩ := List.mem_map.mp hc
    exact hnone t' ht' (List.mem_singleton.mp hc')
  · intro j c hphase'
    obtain ⟨-, heq⟩ | ⟨hij, hphase'⟩ := phase_update hphase'
    · cases heq
    · obtain ⟨hmem, hanswers⟩ := h.requesting j c hphase'
      refine ⟨hmem, ?_⟩
      rintro t' ht' rfl
      rcases List.mem_append.mp ht' with ht' | ht'
      · exact hanswers t' ht' rfl
      · rw [List.mem_singleton.mp ht'] at hmem
        exact hij (hd.owner_eq hmem hattempt)
  · intro j c s hphase'
    obtain ⟨rfl, heq⟩ | ⟨-, hphase'⟩ := phase_update hphase'
    · cases heq
      refine List.mem_append_right _ (List.mem_singleton.mpr ?_)
      rw [← howner]
    · exact List.mem_append_left _ (h.answered j c s hphase')
  · intro j c s hphase'
    obtain ⟨-, heq⟩ | ⟨-, hphase'⟩ := phase_update hphase'
    · cases heq
    · exact h.connected j c s hphase'

theorem Sound.confirm (h : Sound σ) (hd : Distinct f σ) {i : ι} {c s : K} {t : Ticket ι K}
    (hphase : σ.phase i = .answered c s) (hsession : t ∈ σ.sessions) (heq : t.combined f = f c s) :
    Sound { σ with phase := Function.update σ.phase i (.connected c s) } := by
  have hanswer := h.answered i c s hphase
  have hsame : t = ⟨i, c, s⟩ :=
    h.ticket_eq hd (h.answers t (h.sessions t hsession)) (h.answers _ hanswer) heq
  refine ⟨h.offers, h.answers, h.once, h.sessions, h.pending, h.apart, ?_, ?_, ?_⟩
  · intro j c' hphase'
    obtain ⟨-, heq'⟩ | ⟨-, hphase'⟩ := phase_update hphase'
    · cases heq'
    · exact h.requesting j c' hphase'
  · intro j c' s' hphase'
    obtain ⟨-, heq'⟩ | ⟨-, hphase'⟩ := phase_update hphase'
    · cases heq'
    · exact h.answered j c' s' hphase'
  · intro j c' s' hphase'
    obtain ⟨rfl, heq'⟩ | ⟨-, hphase'⟩ := phase_update hphase'
    · cases heq'
      rw [← hsame]
      exact hsession
    · exact h.connected j c' s' hphase'

theorem Sound.leave (h : Sound σ) (i : ι) :
    Sound { σ with phase := Function.update σ.phase i .idle } := by
  refine ⟨h.offers, h.answers, h.once, h.sessions, h.pending, h.apart, ?_, ?_, ?_⟩
  · intro j c hphase
    obtain ⟨-, heq⟩ | ⟨-, hphase⟩ := phase_update hphase
    · cases heq
    · exact h.requesting j c hphase
  · intro j c s hphase
    obtain ⟨-, heq⟩ | ⟨-, hphase⟩ := phase_update hphase
    · cases heq
    · exact h.answered j c s hphase
  · intro j c s hphase
    obtain ⟨-, heq⟩ | ⟨-, hphase⟩ := phase_update hphase
    · cases heq
    · exact h.connected j c s hphase

/-- **Every step** keeps the invariant, as long as the draws stay distinct. -/
theorem Sound.step (h : Sound σ) (hstep : Step f σ σ') (hd : Distinct f σ') : Sound σ' := by
  have hd₀ := hd.of_grows hstep.grows
  cases hstep with
  | attempt i c =>
    refine h.attempt fun hc => ?_
    have hnodup := hd.clientSalts
    rw [List.map_append, List.nodup_append] at hnodup
    exact hnodup.2.2 c hc c (List.mem_singleton_self c) rfl
  | offer s hattempt =>
    refine h.offer hattempt fun hs => ?_
    have hnodup := hd.serverSalts
    rw [List.map_append, List.nodup_append] at hnodup
    exact hnodup.2.2 s hs s (List.mem_singleton_self s) rfl
  | answer hphase hoffer => exact h.answer hd₀ hphase hoffer
  | close hsub =>
    exact ⟨h.offers, h.answers, h.once, h.sessions, fun t ht => h.pending t (hsub.subset ht),
      h.apart.sublist (List.Sublist.append_left hsub _), h.requesting, h.answered, h.connected⟩
  | accept hpending hanswer heq => exact h.accept hd₀ hpending hanswer heq
  | confirm hphase hsession heq => exact h.confirm hd₀ hphase hsession heq
  | leave i => exact h.leave i

/-- **After any steps** the invariant holds, if the draws so far are distinct. -/
theorem sound_of_steps (hsteps : Relation.ReflTransGen (Step f) State.start σ) (hd : Distinct f σ) :
    Sound σ := by
  induction hsteps with
  | refl => exact sound_start
  | tail _ hstep ih => exact (ih (hd.of_grows hstep.grows)).step hstep hd

end Results

end Handshake
