import TalosP2P.Support.CodePoint

/-!
# Support — Yaml

What `yaml.safe_load` returns, and what the scripts do with it: `get`, subscripts, truth and
iteration, each with the exception it raises on a value of another type.  The loader itself is a
parameter wherever it is used.
-/

namespace TalosP2P.Python

/-- A loaded value.  `other` is a scalar of another type, by its truth and its text. -/
inductive Value where
  | null
  | bool (b : Bool)
  | int (n : Int)
  | str (s : Str)
  | other (truth : Bool) (text : Text)
  | seq (items : List Value)
  | map (entries : List (Value × Value))
  deriving Repr

namespace Value

/-- `bool(value)`. -/
def truthy : Value → Bool
  | .null => false
  | .bool b => b
  | .int n => n ≠ 0
  | .str s => s ≠ []
  | .other truth _ => truth
  | .seq items => !items.isEmpty
  | .map entries => !entries.isEmpty

/-- `value == key`, for a text `key`. -/
def isStr (key : Text) : Value → Bool
  | .str s => s = ofText key
  | _ => false

def lookup (key : Text) (entries : List (Value × Value)) : Option Value :=
  (entries.find? fun e => e.1.isStr key).map Prod.snd

/-- `value.get(key)`. -/
def get (key : Text) : Value → Except Exc Value
  | .map entries => .ok ((lookup key entries).getD .null)
  | _ => .error .attributeError

/-- `value[key]`, for a text `key`. -/
def item (key : Text) : Value → Except Exc Value
  | .map entries => orRaise .keyError (lookup key entries)
  | _ => .error .typeError

/-- `value[index]`, for an index of the value. -/
def index (i : Nat) : Value → Except Exc Value
  | .seq items => orRaise .keyError items[i]?
  | .map _ => .error .keyError
  | _ => .error .typeError

/-- `iter(value)`. -/
def iter : Value → Except Exc (List Value)
  | .seq items => .ok items
  | .map entries => .ok (entries.map Prod.fst)
  | .str s => .ok (s.map fun c => .str [c])
  | _ => .error .typeError

/-- `print(value)` raises nothing.  The text of any other value has no surrogate: `repr` escapes them
in a list or a mapping. -/
def encodable (stdout : StreamErrors) : Value → Bool
  | .str s => s.encodable stdout
  | _ => true

/-- The lines `print(value)` writes. -/
def lines : Value → Nat
  | .str s => s.count (.char '\n') + 1
  | _ => 1

theorem isStr_eq_true_iff {key : Text} {v : Value} : v.isStr key = true ↔ v = .str (ofText key) := by
  cases v <;> simp [isStr]

/-- A text of a script is a key exactly when it is that key. -/
theorem isStr_str (k key : String) :
    (Value.str (Python.str k)).isStr key.toList = decide (k = key) := by
  rw [isStr, Python.str, decide_eq_decide, ofText_inj, String.toList_inj]

theorem encodable_of_strict {stdout : StreamErrors} {v : Value} (h : v.encodable .strict = true) :
    v.encodable stdout = true := by
  cases v with
  | str s => exact Python.encodable_of_strict h
  | _ => rfl

theorem lines_pos (v : Value) : 0 < v.lines := by
  cases v <;> simp [lines]

end Value

end TalosP2P.Python
