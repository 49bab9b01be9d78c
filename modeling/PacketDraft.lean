import PacketDraft.Document.Show
import PacketDraft.Main
import PacketDraft.Markup.Declarations
import PacketDraft.Proofs.Description.Chaining
import PacketDraft.Proofs.Description.Diagram
import PacketDraft.Proofs.Description.Title
import PacketDraft.Proofs.Memo.Newlines
import PacketDraft.Proofs.Memo.Sections
import PacketDraft.Proofs.Render.Substitution
import PacketDraft.Proofs.Render.Totality
import PacketDraft.Proofs.Protocol.Acceptance
import PacketDraft.Proofs.Formula.Inequality
import PacketDraft.Proofs.Render.Sketch
import PacketDraft.Proofs.Description.Sentences
import PacketDraft.Proofs.Description.Aliases
import PacketDraft.Proofs.Description.Passages
import PacketDraft.Proofs.Protocol.OpenFields
import PacketDraft.Proofs.Protocol.Deriving
import PacketDraft.Proofs.Render.Capacity
import PacketDraft.Proofs.Description.Converted
import PacketDraft.Proofs.Memo.Nesting
import PacketDraft.Proofs.Memo.Settled
import PacketDraft.Proofs.Memo.Cleaning
import PacketDraft.Proofs.Library.Drafts
import PacketDraft.Proofs.Render.Readable
import PacketDraft.Proofs.Markup.Inline
import PacketDraft.Proofs.Markup.Pairs
import PacketDraft.Proofs.Markup.Blocks
