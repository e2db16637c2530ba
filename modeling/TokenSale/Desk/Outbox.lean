import TokenSale.Transfer

/-!
Where a desk puts transfers. Without an issuer they are kept; an issuer sends them one by one, and
may refuse one, at which sending stops.

A refusal stands for an exception that the issuer raises on a transfer that it has not sent, and
that the desk can catch. What ends the whole desk, as an interrupt does, is no refusal. An issuer
does not call the desk back while it sends.
-/

namespace TokenSale

/-- Kept transfers, or those that an issuer has sent, with the recipients that it will refuse; each
refusal takes one of them off. -/
inductive Outbox where
  | kept (transfers : List Transfer)
  | issuing (refusing : List String) (sent : List Transfer)

namespace Outbox

def issued : Outbox → List Transfer
  | kept ts => ts
  | issuing _ _ => []

def sent : Outbox → List Transfer
  | kept _ => []
  | issuing _ ts => ts

def refuse (o : Outbox) (recipients : List String) : Outbox :=
  match o with
  | kept ts => kept ts
  | issuing refusing ts => issuing (refusing ++ recipients) ts

def put (o : Outbox) (t : Transfer) : Outbox × Bool :=
  match o with
  | kept ts => (kept (ts ++ [t]), true)
  | issuing refusing ts =>
    if refusing.contains t.recipient then (issuing (refusing.erase t.recipient) ts, false)
    else (issuing refusing (ts ++ [t]), true)

/-- Puts in transfers until one is refused, and leaves that one with the rest. -/
def putAll (o : Outbox) : List Transfer → Outbox × List Transfer
  | [] => (o, [])
  | t :: ts =>
    match o.put t with
    | (o, true) => o.putAll ts
    | (o, false) => (o, t :: ts)

theorem putAll_suffix (o : Outbox) (ts : List Transfer) : (o.putAll ts).2 <:+ ts := by
  induction ts generalizing o with
  | nil => simp [putAll]
  | cons t ts ih =>
    simp only [putAll]
    split
    · exact (ih _).trans (List.suffix_cons t ts)
    · exact List.suffix_refl _

end Outbox

end TokenSale
