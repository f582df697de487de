import MiniDiscord.Message

/-!
# HTTP requests

What both servers take from `axum` and `serde`: the parts of a request that extractors look at, and
the choice of a handler by the method.
-/

namespace MiniDiscord

inductive Method
  | get
  | head
  | post
  | delete
  | other (name : String)
deriving DecidableEq

/-- What the extractors look at. A segment of the path that is captured has been decoded. -/
structure HttpRequest (Body : Type) where
  method : Method
  path : List String
  /-- the header `X-User` -/
  user : Option (List UInt8)
  params : String → Option String
  body : Body

/-- The handler of the method, or the fallback. A `GET` route answers `HEAD` as well. -/
def HttpRequest.choose {Body α : Type} (req : HttpRequest Body) (fallback : α)
    (handlers : List (Method × α)) : α :=
  let method := if req.method = .head then .get else req.method
  (handlers.lookup method).getD fallback

theorem HttpRequest.choose_cases {Body α : Type} (req : HttpRequest Body) (fallback : α)
    (handlers : List (Method × α)) : req.choose fallback handlers = fallback ∨
      ∃ method, (method, req.choose fallback handlers) ∈ handlers := by
  rw [choose]
  cases hfind : handlers.lookup (if req.method = .head then .get else req.method) with
  | none => exact Or.inl rfl
  | some handler =>
    obtain ⟨before, after, heq, -⟩ := List.lookup_eq_some_iff.mp hfind
    exact Or.inr ⟨_, heq ▸ List.mem_append_right _ List.mem_cons_self⟩

/-- `HeaderValue::to_str`: visible ASCII characters only -/
def headerToStr (value : List UInt8) : Option String :=
  if value.all fun b => (32 ≤ b && b < 127) || b = 9 then
    some (String.ofList (value.map fun b => Char.ofNat b.toNat))
  else none

/-- A query parameter as a `usize`; one that is missing or empty is none. -/
def queryNumber {ε : Type} (e : ε) (param : Option String) : Except ε (Option ℕ) :=
  match param.filter (· ≠ "") with
  | none => .ok none
  | some text => match (parseUsize text.toList).filter (· < 2 ^ 64) with
    | none => .error e
    | some n => .ok (some n)

end MiniDiscord
