/-
The run log.

A journal writes lines to files of one directory, a file for each day: a main file for events, and one file each for
accepted and for rejected runs. Every write first turns the journal to the day of the moment it is made at. A line is
an object on one line, stamped with that moment; an entry that brings a time stamp of its own keeps it, in the first
place.
-/
import TapeMachine.Storage.Clock
import TapeMachine.Storage.Disk
import TapeMachine.Json.Writer

namespace TapeMachine

structure Journal where
  directory : Text
  stem : Text
  today : String
deriving DecidableEq, Repr

/-- the two outcomes of a run that has halted -/
inductive Verdict where
  | accepted
  | rejected
deriving DecidableEq, Repr

def Verdict.name : Verdict → String
  | .accepted => "accepted"
  | .rejected => "rejected"

/-- why an event is not written -/
inductive EventFault where
  | nameTaken (name : Text)
  | disk (fault : DiskFault)
deriving DecidableEq, Repr

def EventFault.message : EventFault → Text
  | .nameTaken name => "JSONLogger.log_event() got multiple values for argument '" ++ name ++ "'"
  | .disk f => f.message

namespace Journal

/-- a journal in a directory, which is made if it is not there -/
def start (directory stem : Text) (c : Clock) (d : Disk) : Except DiskFault (Journal × Disk) :=
  (d.makeDirectories directory).map fun d => (⟨directory, stem, c.dayName⟩, d)

/-- the name of the main file -/
def currentName (j : Journal) : Text := j.stem ++ j.today ++ ".jsonl"

/-- the path of the main file -/
def current (j : Journal) : Text := Path.join j.directory j.currentName

/-- the path of the file for runs with an outcome -/
def verdictPath (j : Journal) (v : Verdict) : Text :=
  Path.join j.directory (v.name ++ "_" ++ j.today ++ ".jsonl")

/-- the journal on the day of a moment -/
def rotate (j : Journal) (c : Clock) : Journal := { j with today := c.dayName }

/-- an entry with its time stamp -/
def stamped (c : Clock) (entry : Fields) : Fields := Fields.merge [("timestamp", .string c.stamp)] entry

/-- an entry as a line of a file -/
def line (c : Clock) (entry : Fields) : String := Json.write (.object (stamped c entry)) ++ "\n"

/-- writes an entry to the main file -/
def log (j : Journal) (c : Clock) (entry : Fields) (d : Disk) : Journal × Except DiskFault Disk :=
  let j := j.rotate c
  (j, d.append j.current (line c entry))

/-- the names that no field of an event can have -/
def takenNames : List Text := ["self", "event"]

/-- the first field of an event whose name is taken -/
def clash? (fields : Fields) : Option Text := fields.keys.find? takenNames.contains

/-- writes an event to the main file: its name, and then its fields; nothing happens when a name is taken -/
def logEvent (j : Journal) (c : Clock) (name : Json) (fields : Fields) (d : Disk) : Journal × Except EventFault Disk :=
  match clash? fields with
  | some taken => (j, .error (.nameTaken taken))
  | none =>
    let (j, written) := j.log c (("event", name) :: fields) d
    (j, written.mapError .disk)

/-- writes entries to the file of an outcome, which is made even for no entries -/
def logRuns (j : Journal) (c : Clock) (v : Verdict) (entries : List Fields) (d : Disk) :
    Journal × Except DiskFault Disk :=
  let j := j.rotate c
  (j, d.append (j.verdictPath v) (String.join (entries.map (line c))))

end Journal
end TapeMachine
