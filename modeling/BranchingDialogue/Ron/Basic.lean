/-! The data of a RON document: constants, lists, maps, tuples and records. A tuple and a record can
have a name, and a bare name is a value too. -/

namespace BranchingDialogue

inductive Ron
  | unit
  | bool (truth : Bool)
  | number (amount : Float)
  | char (content : Char)
  | string (content : String)
  | absent
  | present (value : Ron)
  | list (items : List Ron)
  | map (entries : List (Ron × Ron))
  | identifier (word : String)
  | tuple (name : Option String) (items : List Ron)
  | record (name : Option String) (fields : List (String × Ron))
  deriving Inhabited

end BranchingDialogue
