import PacketDraft.Memo.Definitions
import PacketDraft.Memo.Grammar
import PacketDraft.Memo.Pages
import PacketDraft.Text.Lines

/-!
# Documents from memos

Reads the lines of a memo: the pages are taken off, the text is read, and paragraphs that describe
packet fields become definition lists.
-/

namespace PacketDraft.Memo

open Document Grammar

/-- The indentation of a paragraph. -/
def paragraphIndent : Nat :=
  3

/-- A document with definition lists in its middle part. -/
def convertMiddle (tab : Nat) (document : Element) : Except Fault Element :=
  match document.part? "middle" with
  | some (.one middle) => do
    let middle ← convert tab middle
    return document.setPart "middle" (.one middle)
  | _ => .ok document

/-- The document that the lines of a memo stand for. -/
def read (lines : List String) : Except Fault Element := do
  let document ← memo.parse (bodyText lines).toList
  convertMiddle paragraphIndent document

/-- The document that a text stands for, whose lines keep their newlines. -/
def ofText (text : String) : Except Fault Element :=
  read ((Text.linesKeeping text.toList).map String.ofList)

end PacketDraft.Memo
