/-
The receiving side of a command (`build_cmd.h`, and the decoding that `CanIPCServer::on_read`
starts with): the table of builders indexed by `eType`, and `readCmd`, which peeks the header,
looks the type up in the two tables and builds the command from the rewound stream.
-/
import AnXfs.Pack.Message

namespace AnXfs.Pack

open AnXfs.Wire

variable (A : Arch)

/-! ## The builders -/

/-- `build_cmd_fn`: reads a command from the front of a stream and leaves the rest; `none` is the
exception cereal throws on a short read. -/
abbrev BuildCmdFn := List UInt8 → Option (AnCmd A × List UInt8)

variable {A} in
/-- `build_cmd_impl<T>`: a `T` read from the stream, as a pointer to its base class. -/
def buildCmdImpl {T : Type} (f : Codec T) (up : T → AnCmd A) : BuildCmdFn A :=
  fun is => (f.get is).map fun (obj, rest) => (up obj, rest)

def buildCmdAnWfpHeader : BuildCmdFn A := buildCmdImpl (AnWfpHeader.codec A) .header
def buildCmdAnWfpCancelAsyncRequest : BuildCmdFn A :=
  buildCmdImpl (AnWfpCancelAsyncRequest.codec A) .wfpCancelAsyncRequest
def buildCmdAnWfpClose : BuildCmdFn A := buildCmdImpl (AnWfpClose.codec A) .wfpClose
def buildCmdAnWfpDeregister : BuildCmdFn A := buildCmdImpl (AnWfpDeregister.codec A) .wfpDeregister
def buildCmdAnWfpExecute : BuildCmdFn A := buildCmdImpl (AnWfpExecute.codec A) .wfpExecute
def buildCmdAnWfpGetInfo : BuildCmdFn A := buildCmdImpl (AnWfpGetInfo.codec A) .wfpGetInfo
def buildCmdAnWfpLock : BuildCmdFn A := buildCmdImpl (AnWfpLock.codec A) .wfpLock
def buildCmdAnWfpOpen : BuildCmdFn A := buildCmdImpl (AnWfpOpen.codec A) .wfpOpen
def buildCmdAnWfpRegister : BuildCmdFn A := buildCmdImpl (AnWfpRegister.codec A) .wfpRegister
def buildCmdAnWfpSetTraceLevel : BuildCmdFn A := buildCmdImpl (AnWfpSetTraceLevel.codec A) .wfpSetTraceLevel
def buildCmdAnWfpUnloadService : BuildCmdFn A := buildCmdImpl (AnWfpHeader.codec A) .header
def buildCmdAnWfpUnlock : BuildCmdFn A := buildCmdImpl (AnWfpUnlock.codec A) .wfpUnlock

/-- `g_cmd_builder`. -/
def gCmdBuilder : List (BuildCmdFn A) :=
  [buildCmdAnWfpHeader A, buildCmdAnWfpCancelAsyncRequest A, buildCmdAnWfpClose A, buildCmdAnWfpDeregister A,
    buildCmdAnWfpExecute A, buildCmdAnWfpGetInfo A, buildCmdAnWfpLock A, buildCmdAnWfpOpen A,
    buildCmdAnWfpRegister A, buildCmdAnWfpSetTraceLevel A, buildCmdAnWfpUnloadService A, buildCmdAnWfpUnlock A]

/-! ## Decoding a chunk -/

/-- How handling an input can fail to return: an exception that nothing catches, an access outside
an array, a call through an empty slot or pointer, a call on an object of another class, a use of
freed memory, or libuv's assertion that a handle is closed only once. -/
inductive Fault where
  | exception
  | outOfRange
  | nullPointer
  | wrongClass
  | useAfterFree
  | closedTwice
  deriving DecidableEq

variable {A}

/-- The start of `CanIPCServer::on_read`: the header, its name for the log, and the command that the
builder of its type reads from the rewound stream, with the unread rest of the chunk. -/
def readCmd (is : List UInt8) : Except Fault (AnCmd A × List UInt8) :=
  match (AnWfpHeader.codec A).get is with
  | none => .error .exception
  | some (header, _) =>
    match eAnWfpTypeName[header.eType.toNat]? with
    | none => .error .outOfRange
    | some _ =>
      match (gCmdBuilder A)[header.eType.toNat]? with
      | none => .error .outOfRange
      | some build =>
        match build is with
        | none => .error .exception
        | some r => .ok r

/-- What a builder allocated: the class of the object is the one its `eType` selects. -/
def AnCmd.Built (m : AnCmd A) : Prop :=
  match m.sentAs with
  | some t => m.eType = t.code
  | none => m.eType = AnWfpType.wfpUnknow.code ∨ m.eType = AnWfpType.wfpUnloadService.code

instance (m : AnCmd A) : Decidable m.Built := by
  unfold AnCmd.Built; split <;> infer_instance

end AnXfs.Pack
