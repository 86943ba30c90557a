import JniHeaders.NativeType
import JniHeaders.Symbol

/-!
A header document and its text. The text depends on nothing but the document.
-/

namespace JniHeaders

inductive Comments where
  | verbose
  | terse
  deriving DecidableEq, Repr

inductive Guard where
  | none
  | pragmaOnce
  | named (name : String)
  deriving DecidableEq, Repr

structure HeaderOptions where
  comments : Comments := .verbose
  guard : Guard := .none
  deriving DecidableEq, Repr

structure Declaration where
  className : String
  methodName : String
  descriptor : String
  symbol : String
  isStatic : Bool
  result : NativeType
  parameters : List NativeType
  deriving DecidableEq, Repr

structure Header where
  guard : Guard
  comments : Comments
  declarations : List Declaration
  deriving DecidableEq, Repr

namespace Declaration

def receiver (declaration : Declaration) : NativeType :=
  if declaration.isStatic then .jclass else .jobject

def commentLines (declaration : Declaration) : List String :=
  ["/*",
    " * Class:     " ++ Symbol.mangleName declaration.className,
    " * Method:    " ++ declaration.methodName,
    " * Signature: " ++ declaration.descriptor,
    " */"]

def parameterList (declaration : Declaration) : String :=
  declaration.parameters.foldr (fun parameter text => ", " ++ parameter.cName ++ text) ""

def prototypeLines (declaration : Declaration) : List String :=
  ["JNIEXPORT " ++ declaration.result.cName ++ " JNICALL " ++ declaration.symbol,
    "  (JNIEnv *, " ++ declaration.receiver.cName ++ declaration.parameterList ++ ");",
    ""]

def lines (comments : Comments) (declaration : Declaration) : List String :=
  match comments with
  | .verbose => declaration.commentLines ++ declaration.prototypeLines
  | .terse => declaration.prototypeLines

end Declaration

namespace Header

def isEmpty (header : Header) : Bool := header.declarations.isEmpty

def bannerLines : Comments → List String
  | .verbose => ["/* DO NOT EDIT THIS FILE - it is machine generated */"]
  | .terse => []

def guardOpening : Guard → List String
  | .none => []
  | .pragmaOnce => ["#pragma once"]
  | .named name => ["#ifndef " ++ name, "#define " ++ name]

def guardClosing : Guard → List String
  | .named _ => ["", "#endif"]
  | _ => []

/-- A blank line follows the banner and the guard, where there is one of them. -/
def head (header : Header) : List String :=
  match bannerLines header.comments ++ guardOpening header.guard with
  | [] => []
  | lines => lines ++ [""]

def languageOpening : List String :=
  ["#include <jni.h>", "", "#ifdef __cplusplus", "extern \"C\" \x7b", "#endif", ""]

def languageClosing : List String := ["#ifdef __cplusplus", "\x7d", "#endif"]

def lines (header : Header) : List String :=
  header.head ++ languageOpening ++ header.declarations.flatMap (·.lines header.comments)
    ++ languageClosing ++ guardClosing header.guard

def text (header : Header) : List Char :=
  header.lines.flatMap fun line => line.toList ++ ['\n']

def render (header : Header) : String := String.ofList header.text

end Header

end JniHeaders
