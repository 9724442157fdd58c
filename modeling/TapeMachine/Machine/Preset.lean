/-
The machines that come with the program: binary increment, unary addition and the three-state busy beaver, each with a
sample input. A preset is looked up by name without regard to case.
-/
import TapeMachine.Machine.Definition

namespace TapeMachine

structure Preset where
  name : String
  description : String
  input : Text
  definition : Definition

namespace Preset

def binaryIncrement : Definition where
  states := ["q_right", "q_flip", "q_halt"]
  alphabet := ["0", "1", "_"]
  blank := "_"
  initial := "q_right"
  accept := "q_halt"
  rules := [
    ⟨"q_right", "0", "q_right", "0", .right⟩,
    ⟨"q_right", "1", "q_right", "1", .right⟩,
    ⟨"q_right", "_", "q_flip", "_", .left⟩,
    ⟨"q_flip", "1", "q_flip", "0", .left⟩,
    ⟨"q_flip", "0", "q_halt", "1", .stay⟩,
    ⟨"q_flip", "_", "q_halt", "1", .stay⟩]

def unaryAddition : Definition where
  states := ["q_move_right", "q_go_end", "q_erase_one", "q_halt"]
  alphabet := ["1", "_"]
  blank := "_"
  initial := "q_move_right"
  accept := "q_halt"
  rules := [
    ⟨"q_move_right", "1", "q_move_right", "1", .right⟩,
    ⟨"q_move_right", "_", "q_go_end", "1", .right⟩,
    ⟨"q_go_end", "1", "q_go_end", "1", .right⟩,
    ⟨"q_go_end", "_", "q_erase_one", "_", .left⟩,
    ⟨"q_erase_one", "1", "q_halt", "_", .stay⟩]

def busyBeaver : Definition where
  states := ["a", "b", "c", "halt"]
  alphabet := ["_", "1"]
  blank := "_"
  initial := "a"
  accept := "halt"
  rules := [
    ⟨"a", "_", "b", "1", .right⟩,
    ⟨"a", "1", "c", "1", .left⟩,
    ⟨"b", "_", "a", "1", .left⟩,
    ⟨"b", "1", "b", "1", .right⟩,
    ⟨"c", "_", "b", "1", .left⟩,
    ⟨"c", "1", "halt", "1", .stay⟩]

def first : Preset :=
  ⟨"Binary Increment", "Adds one to a binary number. E.g., `1011` becomes `1100`.", "1011", binaryIncrement⟩

/-- all presets, in the order in which they are offered -/
def all : List Preset :=
  [first,
   ⟨"Unary Addition", "Adds two unary numbers separated by a blank. E.g., `111_11` becomes `11111`.", "111_11",
    unaryAddition⟩,
   ⟨"Busy Beaver (3 states)", "Writes six 1s on a blank tape in 13 steps, then halts.", "", busyBeaver⟩]

def names : List String := all.map Preset.name

/-- a name with its ASCII letters in lower case; the one character beyond ASCII whose lower case is an ASCII letter is
the Kelvin sign, and no preset has a k in its name -/
def foldCase (s : String) : String := String.ofList (s.toList.map Char.toLower)

/-- the preset of a name, in any case -/
def find? (name : String) : Option Preset := all.find? fun p => foldCase p.name == foldCase name

/-- what is said of a name that no preset has -/
def unknownMessage (name : String) : String :=
  "Unknown preset '" ++ name ++ "'. Available: " ++ ", ".intercalate names

end Preset
end TapeMachine
