import PacketDraft.Render.Rust.Sheet

/-!
# Rust types and parsers

Every type becomes a Rust type and a function that parses it. The function takes the input and the
context, and the values of other fields where the size of the type depends on them.
-/

namespace PacketDraft.Render.Rust

open Text Protocol

/-- What is derived for every type. -/
def deriveLine : String :=
  "\n#[derive(Clone, Debug, PartialEq, Eq)]"

/-- Opens the function that parses a bit string. -/
def bitStringHeader (name : String) (fields : List String) : String :=
  "\npub fn parse_" ++ lowered name ++ "<'a>(input: (&'a [u8], usize), context: &'a mut Context"
    ++ (if fields = [] then "" else ", " ++ inputParameters fields)
    ++ ") -> " ++ parserResult (camelCase name) ++ " \x7b\n"

/-- Reads a bit string of a computed size, byte by byte. -/
def bitStringLoop (name size : String) : List String :=
  let n := lowered name
  ["    let mut " ++ n ++ "_size = " ++ unwrapped size ++ ";\n",
   "    let mut " ++ n ++ " = " ++ camelCase name ++ "(Vec::new());\n",
   "    let mut input = input;\n",
   "    while " ++ n ++ "_size > 0 \x7b\n",
   "        let bits_consumed = if " ++ n ++ "_size > 8 \x7b 8 \x7d else \x7b " ++ n ++ "_size \x7d;\n",
   "        match take(bits_consumed as usize)(input) \x7b\n",
   "            IResult::Ok((i, o)) => \x7b\n",
   "                input = i;\n",
   "                " ++ n ++ ".0.push(o);\n",
   "            \x7d,\n",
   "            IResult::Err(e) => return (IResult::Err(e), context)\n",
   "        \x7d\n",
   "        " ++ n ++ "_size -= bits_consumed;\n",
   "    \x7d\n",
   "    (IResult::Ok((input, " ++ n ++ ")), context)\n"]

/-- The type of a bit string and the head of its parser. -/
def bitStringOpening (name type : String) (fields : List String) : List String :=
  ["\n// Structure and parser for " ++ name ++ " (bitstring type)\n", deriveLine ++ "\n",
   "pub struct ", camelCase name, "(pub " ++ type ++ ");\n", "\n#[inline]",
   bitStringHeader name fields]

/-- A bit string of a fixed size becomes an integer. -/
def writeInteger (name : String) (size : Option Int) : Writing Unit := do
  requireNew name
  put (bitStringOpening name ("u" ++ toString (integerWidth size)) [])
  put ["    (take(" ++ (size.elim "None" toString) ++ " as usize)(input).map(|(i, o)| (i, "
    ++ camelCase name ++ "(o))), context)\n", "\x7d\n"]

/-- A bit string of a computed size becomes bytes. -/
def writeBytes (name size : String) : Writing Unit := do
  let fields := references size
  let size := resolved "" size
  noteInputs ("parse_" ++ lowered name) fields
  requireNew name
  put (bitStringOpening name "Vec<u8>" fields)
  if size = "" then Attempt.fail .outOfRange
  put (bitStringLoop name size)
  put ["\x7d\n"]

def writeBitString (name : String) : Rendered → Writing Unit
  | .absent => writeInteger name none
  | .number n => writeInteger name (some n)
  | .text size => writeBytes name size

/-- A constraint with its references resolved, and the fields it refers to. -/
structure Constraint where
  text : String
  fields : List String
  deriving DecidableEq, Repr

/-- A rendered constraint. Only texts can be checked. -/
def Constraint.ofRendered : Rendered → Except Fault Constraint
  | .text s => .ok ⟨resolved "" s, references s⟩
  | _ => .error .wrongKind

/-- The condition of a constraint where the value of `current` has just been parsed. -/
def Constraint.condition (current : String) (c : Constraint) : String :=
  c.fields.foldl
    (fun text field => replaced field (if field = current then "o.0" else field ++ ".0") text)
    c.text

/-- A field as its structure parses it. -/
structure FieldCode where
  name : String
  parser : String
  presence : Rendered
  deriving DecidableEq, Repr

/-- What goes around the parsing of a field that is not always there. -/
def presenceCode : Rendered → Except Fault (String × String)
  | .text "True" => .ok ("", "")
  | .text p =>
    let condition := resolved ".0" p
    if condition = "" then .error .outOfRange
    else .ok ("if " ++ unwrapped condition ++ " \x7b Some(", "\x7d) \x7d else \x7b None ")
  | _ => .error .wrongKind

/-- The check of a constraint. -/
def checkCode (current : String) (c : Constraint) : String :=
  "            // check constraint: " ++ c.text ++ "\n            if !(" ++ c.condition current
    ++ ") \x7b\n                return (IResult::Err(Err::Error((input, ErrorKind::NonEmpty))), c);\n            \x7d;"

/-- The arm that takes a parsed value over, after checking constraints. -/
def arm (current : String) (checked : List Constraint) : List String :=
  if checked = [] then
    ["        (IResult::Ok((i, o)), c) => \x7b\n", "            input = i;\n",
     "            context = c;\n", "            o\n", "        \x7d\n"]
  else
    ["        (IResult::Ok((i, o)), c) => \x7b\n" ++ "\n".intercalate (checked.map (checkCode current))
       ++ "\n            input = i;\n",
     "            context = c;\n", "            o\n", "        \x7d,\n"]

/-- The arguments for a parser function besides input and context. -/
def inputArguments (inputs : List (String × List String)) (parser : String) : String :=
  match (inputs.lookup parser).getD [] with
  | [] => ""
  | fields => ", " ++ ", ".intercalate (fields.map (· ++ ".0 as usize"))

/-- Parses the fields of a structure one after the other. A constraint is checked as soon as all
fields that it refers to are there. -/
def fieldsCode (inputs : List (String × List String)) :
    List String → List FieldCode → List Constraint → Except Fault (List String)
  | _, [], _ => .ok []
  | before, f :: fs, constraints => do
    let known := before ++ [f.name]
    let (checked, later) := constraints.partition fun c => c.fields.all known.contains
    let (open_, close) ← presenceCode f.presence
    let rest ← fieldsCode inputs known fs later
    return ["    let " ++ f.name ++ " = " ++ open_ ++ "match " ++ f.parser ++ "(input, context"
        ++ inputArguments inputs f.parser ++ ") \x7b\n"]
      ++ arm f.name checked
      ++ ["        (IResult::Err(e), c) => return (IResult::Err(e), c),\n",
          "    " ++ close ++ "\x7d;\n\n"]
      ++ rest

/-- Whether a condition is the constant that always holds. -/
def isAlways : Expr → Bool
  | .const t v => t = .boolean && v = .flag true
  | _ => false

/-- Declares the fields of a structure, and collects what is needed to parse them. -/
def declareFields (s : Store) : List Field → Writing (List FieldCode)
  | [] => pure []
  | f :: fs => do
    let type := typeNameOf s f.type
    let shown := if isAlways f.presence then camelCase type else "Option<" ++ camelCase type ++ ">"
    put ["    pub " ++ f.name ++ ": " ++ shown ++ ",\n"]
    let presence ← Attempt.ofExcept (expr s f.presence)
    let rest ← declareFields s fs
    return ⟨f.name, "parse_" ++ lowered type, presence⟩ :: rest

def writeStruct (s : Store) (name : String) (fields : List Field) (constraints : List Rendered) :
    Writing Unit := do
  requireNew name
  let constraints ← Attempt.ofExcept (constraints.mapM Constraint.ofRendered)
  put ["\n// Structure and parser for " ++ name ++ "\n", "\n#[derive(Clone, Debug, PartialEq, Eq",
    ")]\n", "pub struct ", camelCase name, " \x7b\n"]
  let codes ← declareFields s fields
  put ["\x7d\n", "\n#[inline]",
    "\npub fn parse_" ++ snakeCase name ++ "<'a>(mut input: (&'a [u8], usize), mut context: &'a mut Context) -> "
      ++ parserResult (camelCase name) ++ " \x7b\n"]
  if codes = [] then Attempt.fail .outOfRange
  let inputs ← Attempt.read (·.inputs)
  let code ← Attempt.ofExcept (fieldsCode inputs [] codes constraints)
  put code
  put ["    (IResult::Ok((\n", "        input,\n", "        " ++ camelCase name ++ " \x7b\n"]
  put (codes.map fun f => "            " ++ f.name ++ ",\n")
  put ["        \x7d,\n", "    )),\n", "    context)\n", "\x7d\n"]
  Attempt.update fun s => { s with inputs := [] }

/-- Opens the function that parses an array. -/
def arrayHeader (name : String) (fields : List String) : List String :=
  ["\npub fn parse_" ++ snakeCase name ++ "<'a>(mut input: (&'a [u8], usize), mut context: &'a mut Context, "
     ++ inputParameters fields ++ ") -> " ++ parserResult (camelCase name) ++ " \x7b",
   "\n    let mut " ++ snakeCase name ++ " = " ++ camelCase name ++ "(Vec::new());"]

/-- Reads an array of a given length. -/
def lengthLoop (name element length : String) : List String :=
  ["\n    for _n in 1..=" ++ length ++ " \x7b",
   "\n        match parse_" ++ snakeCase element ++ "(input, context) \x7b",
   "\n            (IResult::Ok((i, o)), c) => \x7b input = i; context = c; " ++ snakeCase name
     ++ ".0.push(o); \x7d,",
   "\n            (IResult::Err(e), c) => return (IResult::Err(e), c),",
   "\n        \x7d",
   "\n    \x7d",
   "\n    (IResult::Ok((input, " ++ snakeCase name ++ ")), context)"]

/-- Reads an array of a given size in bits. -/
def sizeLoop (name element size : String) : List String :=
  ["\n    let mut bits_read = 0;",
   "\n    let bits_to_read = " ++ size ++ ";",
   "\n    while bits_to_read > bits_read \x7b",
   "\n        match parse_" ++ snakeCase element ++ "(input, context) \x7b",
   "\n            (IResult::Ok((i, o)), c) => \x7b",
   "\n                bits_read += (input.1 - i.1) + (input.0.len() - i.0.len())*8;",
   "\n                input = i;",
   "\n                context = c;",
   "\n                " ++ snakeCase name ++ ".0.push(o);",
   "\n            \x7d,",
   "\n            (IResult::Err(_e), c) => \x7b",
   "\n                context = c;",
   "\n                break",
   "\n            \x7d",
   "\n        \x7d",
   "\n    \x7d",
   "\n",
   "\n    if bits_read != bits_to_read \x7b",
   "\n        (IResult::Err(Err::Error((input, ErrorKind::NonEmpty))), context)",
   "\n    \x7d else \x7b",
   "\n        (IResult::Ok((input, " ++ snakeCase name ++ ")), context)",
   "\n    \x7d"]

/-- The text of a rendered expression that has to be one. -/
def neededText : Rendered → Except Fault String
  | .text s => .ok s
  | _ => .error .wrongKind

/-- Writes the parser of an array, with the text for its length or size and the code around it. -/
def writeLoop (s : Store) (name : String) (e : Expr) (loop : String → List String) :
    Writing Unit := do
  let rendered ← Attempt.ofExcept (expr s e)
  let text ← Attempt.ofExcept (neededText rendered)
  noteInputs ("parse_" ++ snakeCase name) (references text)
  put (arrayHeader name (references text))
  put (loop (resolved "" text))

def writeArray (s : Store) (name : String) (element : TypeRef) (length size : Option Expr) :
    Writing Unit := do
  requireNew name
  let elementName := typeNameOf s element
  put ["\n// Structure and parser for " ++ name ++ "\n", deriveLine,
    "\npub struct " ++ camelCase name ++ "(pub Vec<" ++ camelCase elementName ++ ">);\n",
    "\n#[inline]"]
  match length, size with
  | some length, _ => writeLoop s name length (lengthLoop name elementName)
  | none, some size =>
    writeLoop s name size fun text =>
      sizeLoop name elementName (String.ofList text.toList.tail.dropLast)
  | none, none => pure ()
  put ["\n\x7d\n"]

/-- A variant of an enumeration in Rust. -/
def variantLine (name : String) : String :=
  "    " ++ camelCase name ++ "(" ++ camelCase name ++ "),"

/-- Tries one variant. -/
def tryVariant (container name : String) : List String :=
  ["    match parse_" ++ snakeCase name ++ "(input, context) \x7b\n",
   "        (IResult::Ok((i, o)), c) => return (IResult::Ok((i, " ++ container ++ "::"
     ++ camelCase name ++ "(o))), c),\n",
   "        (IResult::Err(_), c) =>  \x7b context = c; \x7d\n    \x7d\n\n"]

def writeEnum (s : Store) (name : String) (variants : List TypeRef) : Writing Unit := do
  let names := variants.filterMap fun v =>
    (s.entryOf v).bind fun e => if e.form.isPrimitive then none else some e.shownName
  put ["\n// Parse enum `" ++ name ++ "`\n", deriveLine,
    "\npub enum " ++ camelCase name ++ " \x7b\n", "\n".intercalate (names.map variantLine),
    "\n\x7d\n\n", "\n#[inline]",
    "pub fn parse_" ++ snakeCase name ++ "<'a>(input: (&'a [u8], usize), mut context: &'a mut Context) -> "
      ++ parserResult (camelCase name) ++ " \x7b\n"]
  if names = [] then Attempt.fail .outOfRange
  put (names.flatMap (tryVariant (camelCase name)))
  put ["    (IResult::Err(Err::Error((input, ErrorKind::NonEmpty))), context)\n", "\x7d\n"]

/-- Writes parameters, given the last of all; one that equals it closes the list. -/
def writeParameters (s : Store) (last : Option Parameter) : List Parameter → Writing Unit
  | [] => pure ()
  | p :: ps => do
    match p.type with
    | .var _ => Attempt.fail .requirement
    | _ => pure ()
    let isLast := last.any fun q => p.name = q.name && s.same p.type q.type
    put [p.name ++ ": " ++ typeNameOf s p.type, if isLast then ") " else ", "]
    writeParameters s last ps

/-- Whether a function gives something back. -/
def hasResult (s : Store) (result : TypeRef) : Bool :=
  match result with
  | .absent => false
  | .var _ => true
  | t => !s.same t .nothing

def writeFunction (s : Store) (f : Signature) : Writing Unit := do
  requireNew f.name
  put ["\nfn " ++ f.name ++ "("]
  writeParameters s f.parameters.getLast? f.parameters
  if hasResult s f.result then put ["-> " ++ camelCase (typeNameOf s f.result)]
  put [" \x7b\n    //function body required\n    unimplemented!();\n\x7d\n\n"]

/-- The Rust lines of a context field. Bit strings need a size that is a number. -/
def slotLines (s : Store) (name : String) (t : TypeRef) : Except Fault (List String) :=
  match s.entryOf t with
  | none => .ok []
  | some e =>
    match e.form with
    | .number => .ok ["    pub " ++ name ++ ": u32,"]
    | .bitString => do
      match ← size s e.size with
      | .text _ => throw .wrongKind
      | .absent => return ["    pub " ++ name ++ ": " ++ toString (integerWidth none) ++ ","]
      | .number n => return ["    pub " ++ name ++ ": " ++ toString (integerWidth (some n)) ++ ","]
    | _ => .ok []

/-- The context goes in front of everything written so far. -/
def writeContext (s : Store) (slots : List (String × TypeRef)) : Writing Unit := do
  let lines ← Attempt.ofExcept (slots.mapM fun (name, t) => slotLines s name t)
  let text := "\n// Context\n\npub struct Context \x7b\n" ++ ",\n".intercalate lines.flatten
    ++ "\n\x7d\n"
  Attempt.update fun sheet => { sheet with chunks := text :: sheet.chunks }

/-- Tries one packet, which has to use up the input. -/
def tryPacket (name : String) : List String :=
  ["    match parse_" ++ snakeCase name ++ "(input, context) \x7b\n",
   "        (IResult::Ok((([], 0), o)), c) => return (IResult::Ok(((&[], 0), PDU::"
     ++ camelCase name ++ "(o))), c),\n",
   "        (IResult::Ok(_), c) | (IResult::Err(_), c) => \x7b context = c; \x7d\n    \x7d\n\n"]

/-- The parser for all packets. -/
def writeProtocol (pdus : List String) : Writing Unit := do
  put ["\n// Parse incoming PDUs\n", deriveLine, "\npub enum PDU \x7b\n",
    "\n".intercalate (pdus.map variantLine), "\n\x7d\n\n", "#[inline]\n",
    "pub fn parse_pdu<'a>(input: (&'a [u8], usize), mut context: &'a mut Context) -> "
      ++ parserResult "PDU" ++ " \x7b\n"]
  if pdus = [] then Attempt.fail .outOfRange
  put (pdus.flatMap tryPacket)
  put ["    (IResult::Err(Err::Error((input, ErrorKind::NonEmpty))), context)", "\n\x7d"]

/-- Writes a type. -/
def writeType (s : Store) (t : TypeRef) : Writing Unit :=
  match s.entryOf t with
  | none => Attempt.fail .inapplicable
  | some e =>
    match e.form with
    | .bitString => do
      let rendered ← Attempt.ofExcept (size s e.size)
      writeBitString e.shownName rendered
    | .struct => do
      let constraints ← Attempt.ofExcept ((s.members e).constraints.mapM (expr s))
      writeStruct s e.shownName (s.members e).fields constraints
    | .array element length => writeArray s e.shownName element length e.size
    | .enum variants => writeEnum s e.shownName variants
    | .function parameters result => writeFunction s ⟨e.shownName, parameters, result⟩
    | .context => writeContext s (s.members e).slots
    | .protocol => writeProtocol s.pdus
    | _ => Attempt.fail .inapplicable

/-- What every source starts with. -/
def preface : String :=
  "extern crate nom;\n\nuse nom::bits::complete::take;\nuse nom::IResult;\nuse nom::Err;\nuse nom::error::ErrorKind;\n"

/-- The manifest of the crate. -/
def manifest (name : String) : String :=
  "[package]\nname = \"" ++ replaced "-" "_" name
    ++ "\"\nversion = \"0.1.0\"\n\n[dependencies]\nlexical-core = \"0.7.5\"\nnom = \"5.1.2\"\n\n"

/-- Puts the preface in front, and gives the files of a crate. -/
def writeFiles (name : String) : Writing (List (String × String)) := do
  Attempt.update fun s => { s with chunks := preface :: s.chunks }
  let chunks ← Attempt.read (·.chunks)
  return [("src/lib.rs", String.join chunks), ("Cargo.toml", manifest name)]

end PacketDraft.Render.Rust
