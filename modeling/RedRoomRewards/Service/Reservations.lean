import RedRoomRewards.Service.Mongo
import RedRoomRewards.Process.Machine

/-! Reservations of points: creating, committing and releasing them, and the sweep that
marks the expired ones. Texts are such as `trim()` leaves alone. -/
namespace RedRoomRewards.Reservations
open Process Store

section documents

inductive ReservationStatus where
  | active
  | committed
  | released
  | expired
  deriving DecidableEq

structure Reservation where
  reservationId : String
  userId : String
  amount : ℚ
  status : ReservationStatus
  createdAt : Time
  updatedAt : Time
  expiresAt : Time
  sourceCorrelationId : Option String

def Reservation.invalid (r : Reservation) : List String := invalidPaths [
  ("reservationId", requiredText 128 r.reservationId),
  ("userId", requiredText 128 r.userId),
  ("amount", 0 ≤ r.amount),
  ("sourceCorrelationId", optionalText 256 r.sourceCorrelationId)]

/-- `$set: { status, updatedAt }`. -/
def Reservation.closed (status : ReservationStatus) (updatedAt : Time) (r : Reservation) : Reservation :=
  { r with status := status, updatedAt := updatedAt }

theorem Reservation.closed_keeps (status : ReservationStatus) (updatedAt : Time) :
    Collection.Keeps Reservation.reservationId Reservation.reservationId (Reservation.closed status updatedAt) :=
  fun _ => ⟨rfl, rfl⟩

abbrev PointsReservations :=
  Collection Reservation String String Reservation.reservationId Reservation.reservationId

end documents

section store

/-- The database calls of the service. An `updateMany` is not atomic: it comes to one
document after another, and updates each that matches when it is its turn. -/
inductive Cmd where
  | create (r : Reservation)
  | close (reservationId : String) (status : ReservationStatus) (updatedAt : Time)
  | visit (now : Time) (batchSize : ℕ)
  | expire (reservationId : String) (now : Time)
  | now

@[reducible] def Cmd.Reply : Cmd → Type
  | create _ => Except MongoError Reservation
  | close .. => Option Reservation
  | visit .. => List String
  | expire .. => Bool
  | now => Time

abbrev Store : Interface := ⟨Cmd, Cmd.Reply⟩

/-- What a run leaves open: the time, and the documents that an `updateMany` comes to. It
has no limit, and if it had one, that would be decided here. -/
structure Oracle where
  now : Time
  visited : List String

/-- `findOneAndUpdate` of the reservation, if it is active, returning it updated. -/
def close (c : PointsReservations) (reservationId : String) (status : ReservationStatus) (updatedAt : Time) :
    Option Reservation × PointsReservations :=
  match c.find reservationId with
  | some r => if r.status = .active then
      (some (r.closed status updatedAt), c.modify reservationId _ (Reservation.closed_keeps status updatedAt))
    else (none, c)
  | none => (none, c)

/-- One document of the sweep: whether it is modified. -/
def expire (c : PointsReservations) (reservationId : String) (now : Time) : Bool × PointsReservations :=
  match c.find reservationId with
  | some r => if r.status = .active ∧ r.expiresAt ≤ now then
      (true, c.modify reservationId _ (Reservation.closed_keeps .expired now))
    else (false, c)
  | none => (false, c)

/-- One atomic command. -/
def exec (o : Oracle) (c : PointsReservations) : (cmd : Cmd) → cmd.Reply × PointsReservations
  | .create r => create c r r.invalid ["reservationId"]
  | .close reservationId status updatedAt => close c reservationId status updatedAt
  | .visit .. => (o.visited, c)
  | .expire reservationId now => expire c reservationId now
  | .now => (o.now, c)

abbrev Job (α : Type) := Prog Store MongoError α

def issue (c : Cmd) : Job c.Reply := Prog.ask (I := Store) c

@[simp] theorem issue_bind {α : Type} (c : Cmd) (f : c.Reply → Job α) :
    issue c >>= f = Prog.call (I := Store) c f := rfl

end store

section service

structure CreateReservationRequest where
  reservationId : String
  userId : String
  amount : ℚ
  expiresAt : Time
  sourceCorrelationId : Option String

structure CommitReservationRequest where
  reservationId : String

structure ReleaseReservationRequest where
  reservationId : String

def CreateReservationRequest.document (request : CreateReservationRequest) (now : Time) : Reservation where
  reservationId := request.reservationId
  userId := request.userId
  amount := request.amount
  status := .active
  createdAt := now
  updatedAt := now
  expiresAt := request.expiresAt
  sourceCorrelationId := request.sourceCorrelationId

def createReservation (request : CreateReservationRequest) : Job Reservation := do
  let now ← issue .now
  match ← issue (.create (request.document now)) with
  | .ok reservation => pure reservation
  | .error e => .throw e

def commitReservation (request : CommitReservationRequest) : Job (Option Reservation) := do
  let updatedAt ← issue .now
  issue (.close request.reservationId .committed updatedAt)

def releaseReservation (request : ReleaseReservationRequest) : Job (Option Reservation) := do
  let updatedAt ← issue .now
  issue (.close request.reservationId .released updatedAt)

/-- The documents that the sweep comes to, and how many it has modified. -/
def expireEach (now : Time) : List String → ℕ → Job ℕ
  | [], modifiedCount => pure modifiedCount
  | reservationId :: rest, modifiedCount => do
    let modified ← issue (.expire reservationId now)
    expireEach now rest (if modified then modifiedCount + 1 else modifiedCount)

def markExpiredReservations (batchSize : ℕ) : Job ℕ := do
  let now ← issue .now
  let visited ← issue (.visit now batchSize)
  expireEach now visited 0

end service

section calls

inductive Call where
  | create (request : CreateReservationRequest)
  | commit (request : CommitReservationRequest)
  | release (request : ReleaseReservationRequest)
  | markExpired (batchSize : ℕ)

inductive Response where
  | created (reservation : Reservation)
  | closed (reservation : Option Reservation)
  | expired (modifiedCount : ℕ)

def Call.body : Call → Job (Next Call Response)
  | create request => createReservation request >>= fun r => pure (.done (.created r))
  | commit request => commitReservation request >>= fun r => pure (.done (.closed r))
  | release request => releaseReservation request >>= fun r => pure (.done (.closed r))
  | markExpired batchSize => markExpiredReservations batchSize >>= fun n => pure (.done (.expired n))

/-- Any number of calls over one collection. -/
def service : Machine Store PointsReservations Oracle Call Response MongoError where
  exec := exec
  body := Call.body

@[simp] theorem service_exec : service.exec = exec := rfl

abbrev Run := State Store PointsReservations Call Response MongoError

abbrev Schedule := Run → Label Oracle Call → Prop

end calls
end RedRoomRewards.Reservations
