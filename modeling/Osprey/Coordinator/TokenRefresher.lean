/-
The refresher of access tokens (`gcloud/auth/token_refresher.rs`, `token.rs`):
a loop that replaces a token in the second half of its life, publishes its
header, and sleeps.

How long it sleeps is computed from the token it had before the refresh. So a
long-lived token that is replaced by a short-lived one lets the latter expire.
Times are in nanoseconds.
-/
import Mathlib.Tactic.Common

namespace Osprey.TokenRefresher

/-- `Duration::as_secs`. -/
def asSecs (nanos : Nat) : Nat := nanos / 1000000000

/-- What `get_token` returns, but for the time it does so. -/
structure Fetched where
  accessToken : String
  tokenType : String
  expiresInSecs : Nat

structure Token extends Fetched where
  createdAt : Nat

namespace Token

variable (token : Token) (now : Nat)

def isExpired : Bool := token.expiresInSecs < asSecs (now - token.createdAt)

def ttlSecs : Nat := token.expiresInSecs - asSecs (now - token.createdAt)

def toHeaderRep : String := token.tokenType ++ " " ++ token.accessToken

end Token

/-- The task at the head of its loop, and the header that the handle holds. -/
structure State where
  token : Token
  authHeaderValue : String
  now : Nat

/-- `TokenRefresher::new` and `spawn_refresher`. -/
def spawnRefresher (token : Token) (now : Nat) : State := ⟨token, token.toHeaderRep, now⟩

/-- How long the loop sleeps: computed before the refresh. -/
def State.minRefreshPeriod (s : State) (refreshPeriod : Nat) : Nat :=
  let expiresIn := s.token.ttlSecs s.now - 60
  if asSecs refreshPeriod < expiresIn then refreshPeriod else max expiresIn 1 * 1000000000

/-- The token is in the second half of its life. -/
def State.IsDue (s : State) : Prop := (s.token.expiresInSecs - 3) / 2 ≤ asSecs (s.now - s.token.createdAt)

instance (s : State) : Decidable s.IsDue := inferInstanceAs (Decidable (_ ≤ _))

/-- `refresh`, with what `get_token` returns or nothing for an error. -/
def State.refresh (s : State) (newToken : Option Fetched) : State :=
  if s.IsDue then
    match newToken with
    | some fetched =>
      let token : Token := ⟨fetched, s.now⟩
      { s with token, authHeaderValue := token.toHeaderRep }
    | none => s
  else s

/-- One round of the loop: refresh and sleep. -/
def State.next (s : State) (refreshPeriod : Nat) (newToken : Option Fetched) : State :=
  { s.refresh newToken with now := s.now + s.minRefreshPeriod refreshPeriod }

def heads (refreshPeriod : Nat) (tokens : Nat → Option Fetched) (s : State) : Nat → State
  | 0 => s
  | n + 1 => (heads refreshPeriod tokens s n).next refreshPeriod (tokens n)

/-- When it is made, and from the refresh of a round to the next one, the handle holds the header of a token that has
not expired. -/
def NeverExpired (refreshPeriod : Nat) (tokens : Nat → Option Fetched) (s : State) : Prop :=
  s.token.isExpired s.now = false ∧
  ∀ n t, (heads refreshPeriod tokens s n).now ≤ t → t ≤ (heads refreshPeriod tokens s (n + 1)).now →
    let held := heads refreshPeriod tokens s (n + 1)
    held.authHeaderValue = held.token.toHeaderRep ∧ held.token.isExpired t = false

/-! ## One round -/

variable {s : State} {fetched : Fetched} {refreshPeriod : Nat}

theorem minRefreshPeriod_cases (s : State) (refreshPeriod : Nat) :
    (asSecs refreshPeriod < s.token.ttlSecs s.now - 60 ∧ s.minRefreshPeriod refreshPeriod = refreshPeriod) ∨
      (s.token.ttlSecs s.now - 60 ≤ asSecs refreshPeriod ∧
        s.minRefreshPeriod refreshPeriod = max (s.token.ttlSecs s.now - 60) 1 * 1000000000) := by
  rcases Nat.lt_or_ge (asSecs refreshPeriod) (s.token.ttlSecs s.now - 60) with h | h
  · exact .inl ⟨h, if_pos h⟩
  · exact .inr ⟨h, if_neg (Nat.not_lt.mpr h)⟩

/-- What the rounds keep, for tokens that are valid for two minutes. -/
structure Valid (s : State) : Prop where
  created : s.token.createdAt ≤ s.now
  header : s.authHeaderValue = s.token.toHeaderRep
  long : 120 ≤ s.token.expiresInSecs

theorem next_of_due (h : s.IsDue) : (s.next refreshPeriod (some fetched)).token = ⟨fetched, s.now⟩ := by
  simp [State.next, State.refresh, h]

theorem next_of_not_due (h : ¬ s.IsDue) : (s.next refreshPeriod (some fetched)).token = s.token := by
  simp [State.next, State.refresh, h]

theorem Valid.next (h : Valid s) (hlong : 120 ≤ fetched.expiresInSecs) :
    Valid (s.next refreshPeriod (some fetched)) := by
  by_cases hdue : s.IsDue
  · constructor <;> simp [State.next, State.refresh, hdue, hlong]
  · have hcreated := h.created
    constructor
    · simp [State.next, State.refresh, hdue]
      omega
    · simp [State.next, State.refresh, hdue, h.header]
    · simp [State.next, State.refresh, hdue, h.long]

theorem isExpired_eq_false {token : Token} {t} :
    token.isExpired t = false ↔ asSecs (t - token.createdAt) ≤ token.expiresInSecs := by
  simp [Token.isExpired]

theorem isExpired_of_le {token : Token} {t now} (hle : t ≤ now) (h : token.isExpired now = false) :
    token.isExpired t = false := by
  rw [isExpired_eq_false, asSecs] at h ⊢
  omega

/-- A token that is kept is in the first half of its life, and the loop wakes a minute before its end. -/
theorem Valid.kept (h : Valid s) (hdue : ¬ s.IsDue) :
    (s.next refreshPeriod (some fetched)).token.isExpired (s.next refreshPeriod (some fetched)).now = false := by
  have hcreated := h.created
  have hlong := h.long
  rw [next_of_not_due hdue, isExpired_eq_false]
  have hperiod := minRefreshPeriod_cases s refreshPeriod
  simp only [State.next, Token.ttlSecs, State.IsDue, asSecs] at hdue hperiod ⊢
  omega

theorem isExpired_of_due (hdue : s.IsDue) :
    (s.next refreshPeriod (some fetched)).token.isExpired (s.next refreshPeriod (some fetched)).now = false ↔
      asSecs (s.minRefreshPeriod refreshPeriod) ≤ fetched.expiresInSecs := by
  rw [next_of_due hdue, isExpired_eq_false]
  simp [State.next]

/-! ## Every round -/

/-- **When the published token never expires.** Exactly if the first has not expired when the loop starts, and every
token that is fetched lives at least as long as the loop then sleeps, which is computed from the token before it. A
refresh period of two minutes or less is enough for the latter. -/
theorem never_expired_iff (refreshPeriod : Nat) (tokens : Nat → Fetched) (token : Token) (now : Nat)
    (hcreated : token.createdAt ≤ now) (hlong : 120 ≤ token.expiresInSecs)
    (htokens : ∀ n, 120 ≤ (tokens n).expiresInSecs) :
    let round := heads refreshPeriod (fun n => some (tokens n)) (spawnRefresher token now)
    (NeverExpired refreshPeriod (fun n => some (tokens n)) (spawnRefresher token now) ↔ token.isExpired now = false ∧
      ∀ n, (round n).IsDue → asSecs ((round n).minRefreshPeriod refreshPeriod) ≤ (tokens n).expiresInSecs) ∧
    (asSecs refreshPeriod ≤ 120 →
      ∀ n, asSecs ((round n).minRefreshPeriod refreshPeriod) ≤ (tokens n).expiresInSecs) := by
  intro round
  have hvalid : ∀ n, Valid (round n) := by
    intro n
    induction n with
    | zero => exact ⟨hcreated, rfl, hlong⟩
    | succ n ih => exact ih.next (htokens n)
  constructor
  · refine and_congr_right fun _ => ⟨fun h n hdue => ?_, fun h n t _ ht => ?_⟩
    · exact (isExpired_of_due hdue).mp (h n _ (Nat.le_add_right _ _) (Nat.le_refl _)).2
    · refine ⟨(hvalid (n + 1)).header, isExpired_of_le ht ?_⟩
      by_cases hdue : (round n).IsDue
      · exact (isExpired_of_due hdue).mpr (h n hdue)
      · exact (hvalid n).kept hdue
  · intro hperiod n
    have hfetched := htokens n
    have hcases := minRefreshPeriod_cases (round n) refreshPeriod
    simp only [asSecs] at hperiod hcases ⊢
    omega

def bearer (expiresInSecs : Nat) : Fetched := ⟨"", "Bearer", expiresInSecs⟩

/-- Tokens for an hour, asked for every minute. -/
theorem never_expired_hourly :
    NeverExpired (60 * 1000000000) (fun _ => some (bearer 3600)) (spawnRefresher ⟨bearer 3600, 0⟩ 0) := by
  obtain ⟨hiff, hperiod⟩ := never_expired_iff (60 * 1000000000) (fun _ => bearer 3600) ⟨bearer 3600, 0⟩ 0 (by decide)
    (by decide) fun _ => by decide
  exact hiff.mpr ⟨rfl, fun n _ => hperiod (by decide) n⟩

/-- A token for three hours is replaced after half of them by one for two minutes, which is held for half an hour. -/
theorem short_token_expires :
    let held := heads (1800 * 1000000000) (fun _ => some (bearer 120)) (spawnRefresher ⟨bearer 10800, 0⟩ 0) 4
    held.token.isExpired held.now = true := by
  decide

end Osprey.TokenRefresher
