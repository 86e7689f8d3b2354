import UnixNotes.Rpc.Streaming

namespace UnixNotes.Rpc

open Reactor (Buffer)
open Library (StreamDecoder Drained)

section Decode

variable {α : Type} {expectedType : MessageType} {readMessage : ParsedFrame → Option α}
  {buffer buffer' : Buffer} {message decoded : α}

end Decode

section Receive

variable {α : Type} {expectedType : MessageType} {readMessage : ParsedFrame → Option α}

end Receive

end UnixNotes.Rpc
