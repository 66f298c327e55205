import MotionMetadata.Proofs.Steady

/-!
# Numbers and text are steady

Integers, tags, lengths and real numbers of all kinds, read and written. Each is refused for
what is wrong with it and never for its depth, and is written the same wherever it stands.
-/

namespace MotionMetadata

variable {deep : Prop}

/-! ## Reading -/

open Reader

theorem Integer.readUnsigned_shallow (width : Nat) : (readUnsigned width).Shallow deep := by
  rw [readUnsigned]
  refine .ite (fun _ => ?_) fun _ => .bind .position fun _ => ?_
  · exact .bind (.take width) fun _ => .pure _
  · exact .bind (.raiseAt rfl) fun _ => .bind (.take width) fun _ => .pure _

theorem Integer.readSigned_shallow (width : Nat) : (readSigned width).Shallow deep :=
  .bind (readUnsigned_shallow width) fun _ => .pure _

theorem Ber.readLength_shallow : readLength.Shallow deep := by
  rw [readLength]
  refine .restoring (.bind .position fun _ => .bind .byte fun lead => ?_)
  exact .ite (fun _ => .pure _) fun _ => .require rfl (Integer.readUnsigned_shallow _)

theorem Ber.readTag_shallow : readTag.Shallow deep := by
  intro c e d he hdepth
  rw [readTag, bind_of_ok (get_apply c)] at he
  cases hscan : scanTag maxTagWidth 0 c.rest with
  | some found =>
      rw [hscan] at he
      cases he
  | none =>
      rw [hscan] at he
      injection he with he
      subst he
      rw [Error.kind, Fault.kind] at hdepth
      split at hdepth <;> cases hdepth

theorem UniversalKey.read_shallow : UniversalKey.read.Shallow deep := by
  rw [UniversalKey.read]
  refine .bind .position fun _ => .bind (.take 16) fun bytes => ?_
  cases UniversalKey.ofBytes? bytes with
  | none => exact .raiseAt rfl
  | some key => exact .pure key

theorem Floating.read_shallow (width : Nat) : (read width).Shallow deep := by
  rw [read]
  refine .bind .position fun _ => ?_
  split
  · exact .bind (Integer.readUnsigned_shallow 4) fun _ => .pure _
  · exact .bind (Integer.readUnsigned_shallow 8) fun _ => .pure _
  · exact .raiseAt rfl

theorem checkDomain_kind {low high : Binary64} {width : Nat} {fault : Fault}
    (h : checkDomain low high width = .error fault) : fault.isDeep = false := by
  rw [checkDomain] at h
  split at h
  · injection h with h
    exact h ▸ rfl
  · split at h
    · injection h with h
      exact h ▸ rfl
    · cases h

theorem Imap.bare_kind {name : String} {payload : Nat} {value : Imap} {fault : Fault}
    (h : bare name payload value = .error fault) : fault.isDeep = false := by
  rw [bare] at h
  split at h
  · cases h
  · injection h with h
    exact h ▸ rfl

theorem Imap.specialOf_kind {width raw : Nat} {fault : Fault}
    (h : specialOf width raw = .error fault) : fault.isDeep = false := by
  rw [specialOf] at h
  dsimp only at h
  split at h
  · exact bare_kind h
  · exact bare_kind h
  · cases h
  · cases h
  · cases h
  · cases h
  · cases h
  · split at h
    · exact bare_kind h
    · exact bare_kind h
    · injection h with h
      exact h ▸ rfl
  · injection h with h
    exact h ▸ rfl

theorem Imap.numberOf_kind {low high : Binary64} {width : Nat} {raw : UInt64} {fault : Fault}
    (h : numberOf low high width raw = .error fault) : fault.isDeep = false := by
  obtain ⟨number, hnumber⟩ : ∃ number, numberOf low high width raw =
      if number.lt low || high.lt number then .error (.scaledOutside number low high)
      else .ok number := ⟨_, rfl⟩
  rw [hnumber] at h
  split at h
  · injection h with h
    exact h ▸ rfl
  · cases h

theorem Imap.read_shallow (low high : Binary64) (width : Nat) :
    (read low high width).Shallow deep := by
  rw [read]
  refine .bind .position fun _ => ?_
  cases hdomain : checkDomain low high width with
  | error fault => exact .raiseAt (checkDomain_kind hdomain)
  | ok _ =>
      refine .bind (Integer.readUnsigned_shallow width) fun raw => ?_
      dsimp only
      cases hvalue : (if isSpecial width raw.toNat then specialOf width raw.toNat
        else (numberOf low high width raw).map .normal) with
      | ok value => exact .pure _
      | error fault =>
          refine .raiseAt ?_
          split at hvalue
          · exact specialOf_kind hvalue
          · cases hnumber : numberOf low high width raw with
            | ok x =>
                rw [hnumber] at hvalue
                cases hvalue
            | error fault' =>
                rw [hnumber] at hvalue
                injection hvalue with hvalue
                exact hvalue ▸ numberOf_kind hnumber

theorem Linear.readUnsigned_shallow (low high : Binary64) (width : Nat) :
    (readUnsigned low high width).Shallow deep := by
  rw [readUnsigned]
  refine .bind .position fun _ => ?_
  cases hdomain : checkDomain low high width with
  | error fault => exact .raiseAt (checkDomain_kind hdomain)
  | ok _ => exact .bind (Integer.readUnsigned_shallow width) fun _ => .pure _

theorem Linear.readSigned_shallow (low high : Binary64) (width : Nat) :
    (readSigned low high width).Shallow deep := by
  rw [readSigned]
  refine .bind .position fun _ => ?_
  cases hdomain : checkDomain low high width with
  | error fault => exact .raiseAt (checkDomain_kind hdomain)
  | ok _ =>
      refine .bind (Integer.readSigned_shallow width) fun raw => ?_
      exact .ite (fun _ => .pure _) fun _ => .pure _

theorem Text.Encoding.decode_shallow (encoding : Text.Encoding) (data : Bytes) :
    Shallow deep (encoding.decode data) := by
  rw [decode.eq_def]
  split
  · split
    · exact .raise rfl
    · exact .ok _
  · split
    · exact .ok _
    · exact .raise rfl
  · refine .ite (fun _ => .raise rfl) fun _ => ?_
    split
    · exact .ok _
    · exact .raise rfl

/-! ## Writing -/

open Encoder

theorem Integer.writeUnsigned_steady (value : UInt64) (width : Nat) :
    (Integer.writeUnsigned value width).Steady deep := by
  rw [Integer.writeUnsigned]
  refine .ite (fun _ => ?_) fun _ => .refusal fun _ => ⟨_, rfl, by rintro ⟨⟩⟩
  exact .require rfl (.emit _)

theorem Integer.writeSigned_steady (value : Int64) (width : Nat) :
    (Integer.writeSigned value width).Steady deep := by
  rw [Integer.writeSigned]
  refine .ite (fun _ => ?_) fun _ => .refusal fun _ => ⟨_, rfl, by rintro ⟨⟩⟩
  exact .require rfl (.emit _)

theorem Ber.writeTag_steady (value : UInt64) : (Ber.writeTag value).Steady deep := by
  rw [Ber.writeTag]
  exact .require rfl (.emit _)

theorem Ber.writeLength_steady (n : Nat) : (Ber.writeLength n).Steady deep := .emit _

theorem Floating.write_steady (value : Binary64) (width : Nat) :
    (Floating.write value width).Steady deep := by
  rw [Floating.write.eq_def]
  split
  · exact .refuse rfl (.emit _)
  · exact .emit _
  · exact .raise rfl

theorem Imap.write_steady (value : Imap) (low high : Binary64) (width : Nat) :
    (value.write low high width).Steady deep := by
  rw [Imap.write]
  cases h : checkDomain low high width with
  | error fault => exact .raise (checkDomain_kind h)
  | ok _ =>
      refine .require rfl ?_
      split
      · exact .ite (fun _ => Integer.writeUnsigned_steady _ _)
          fun _ => Integer.writeUnsigned_steady _ _
      · exact Integer.writeUnsigned_steady _ _

theorem Linear.checkValue_kind {value low high : Binary64} {fault : Fault}
    (h : Linear.checkValue value low high = .error fault) : fault.isDeep = false := by
  rw [Linear.checkValue] at h
  split at h
  · cases h
  · injection h with h
    exact h ▸ rfl

theorem Linear.writeUnsigned_steady (value low high : Binary64) (width : Nat) :
    (Linear.writeUnsigned value low high width).Steady deep := by
  rw [Linear.writeUnsigned]
  cases hdomain : checkDomain low high width with
  | error fault => exact .raise (checkDomain_kind hdomain)
  | ok _ =>
      cases hvalue : Linear.checkValue value low high with
      | error fault => exact .raise (Linear.checkValue_kind hvalue)
      | ok _ => exact Integer.writeUnsigned_steady _ _

theorem Linear.writeSigned_steady (value low high : Binary64) (width : Nat) :
    (Linear.writeSigned value low high width).Steady deep := by
  rw [Linear.writeSigned]
  cases hdomain : checkDomain low high width with
  | error fault => exact .raise (checkDomain_kind hdomain)
  | ok _ =>
      refine .ite (fun _ => Integer.writeSigned_steady _ _) fun _ => ?_
      cases hvalue : Linear.checkValue value low high with
      | error fault => exact .raise (Linear.checkValue_kind hvalue)
      | ok _ => exact Integer.writeSigned_steady _ _

theorem Text.Encoding.encode_shallow (encoding : Text.Encoding) (text : String) :
    Shallow deep (encoding.encode text) := by
  cases encoding with
  | ascii => exact .ite (fun _ => .ok _) fun _ => .raise rfl
  | utf8 => exact .ok _
  | utf16 => exact .ok _

end MotionMetadata
