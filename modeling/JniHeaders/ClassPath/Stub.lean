import JniHeaders.ClassInfo

/-!
Stubs of common platform classes: who inherits from whom, and nothing else. A class path falls
back on them, so that the usual types of native methods need no class library. The table is
closed: every class it names has a stub.
-/

namespace JniHeaders

def objectName : String := "java.lang.Object"

def classStub (name superclass : String) (interfaces : List String) : ClassInfo :=
  ⟨name, some superclass, interfaces, false, []⟩

def interfaceStub (name : String) (interfaces : List String) : ClassInfo :=
  ⟨name, some objectName, interfaces, true, []⟩

def platformStubs : List ClassInfo := [
  ⟨objectName, none, [], false, []⟩,
  classStub "java.lang.String" objectName
    ["java.io.Serializable", "java.lang.Comparable", "java.lang.CharSequence"],
  classStub "java.lang.Class" objectName ["java.io.Serializable", "java.lang.reflect.Type"],
  classStub "java.lang.ClassLoader" objectName [],
  classStub "java.lang.Throwable" objectName ["java.io.Serializable"],
  classStub "java.lang.Exception" "java.lang.Throwable" [],
  classStub "java.lang.Error" "java.lang.Throwable" [],
  classStub "java.lang.RuntimeException" "java.lang.Exception" [],
  classStub "java.lang.ReflectiveOperationException" "java.lang.Exception" [],
  classStub "java.lang.ClassNotFoundException" "java.lang.ReflectiveOperationException" [],
  classStub "java.lang.InterruptedException" "java.lang.Exception" [],
  classStub "java.lang.IllegalArgumentException" "java.lang.RuntimeException" [],
  classStub "java.lang.IllegalStateException" "java.lang.RuntimeException" [],
  classStub "java.lang.NullPointerException" "java.lang.RuntimeException" [],
  classStub "java.lang.ArithmeticException" "java.lang.RuntimeException" [],
  classStub "java.lang.ClassCastException" "java.lang.RuntimeException" [],
  classStub "java.lang.IndexOutOfBoundsException" "java.lang.RuntimeException" [],
  classStub "java.lang.ArrayIndexOutOfBoundsException" "java.lang.IndexOutOfBoundsException" [],
  classStub "java.lang.UnsupportedOperationException" "java.lang.RuntimeException" [],
  classStub "java.lang.VirtualMachineError" "java.lang.Error" [],
  classStub "java.lang.OutOfMemoryError" "java.lang.VirtualMachineError" [],
  classStub "java.lang.Number" objectName ["java.io.Serializable"],
  classStub "java.lang.Boolean" objectName ["java.io.Serializable", "java.lang.Comparable"],
  classStub "java.lang.Character" objectName ["java.io.Serializable", "java.lang.Comparable"],
  classStub "java.lang.Byte" "java.lang.Number" ["java.lang.Comparable"],
  classStub "java.lang.Short" "java.lang.Number" ["java.lang.Comparable"],
  classStub "java.lang.Integer" "java.lang.Number" ["java.lang.Comparable"],
  classStub "java.lang.Long" "java.lang.Number" ["java.lang.Comparable"],
  classStub "java.lang.Float" "java.lang.Number" ["java.lang.Comparable"],
  classStub "java.lang.Double" "java.lang.Number" ["java.lang.Comparable"],
  classStub "java.lang.Void" objectName [],
  classStub "java.lang.Enum" objectName ["java.lang.Comparable", "java.io.Serializable"],
  classStub "java.lang.Record" objectName [],
  classStub "java.lang.Thread" objectName ["java.lang.Runnable"],
  classStub "java.lang.AbstractStringBuilder" objectName
    ["java.lang.Appendable", "java.lang.CharSequence"],
  classStub "java.lang.StringBuilder" "java.lang.AbstractStringBuilder"
    ["java.io.Serializable", "java.lang.Comparable", "java.lang.CharSequence"],
  interfaceStub "java.lang.CharSequence" [],
  interfaceStub "java.lang.Comparable" [],
  interfaceStub "java.lang.Runnable" [],
  interfaceStub "java.lang.Iterable" [],
  interfaceStub "java.lang.AutoCloseable" [],
  interfaceStub "java.lang.Cloneable" [],
  interfaceStub "java.lang.Appendable" [],
  interfaceStub "java.lang.reflect.Type" [],
  interfaceStub "java.io.Serializable" [],
  interfaceStub "java.io.Closeable" ["java.lang.AutoCloseable"],
  interfaceStub "java.io.Flushable" [],
  classStub "java.io.IOException" "java.lang.Exception" [],
  classStub "java.io.FileNotFoundException" "java.io.IOException" [],
  classStub "java.io.UncheckedIOException" "java.lang.RuntimeException" [],
  classStub "java.io.File" objectName ["java.io.Serializable", "java.lang.Comparable"],
  classStub "java.io.InputStream" objectName ["java.io.Closeable"],
  classStub "java.io.OutputStream" objectName ["java.io.Closeable", "java.io.Flushable"],
  classStub "java.nio.Buffer" objectName [],
  classStub "java.nio.ByteBuffer" "java.nio.Buffer" ["java.lang.Comparable"],
  classStub "java.nio.charset.Charset" objectName ["java.lang.Comparable"],
  interfaceStub "java.util.Collection" ["java.lang.Iterable"],
  interfaceStub "java.util.List" ["java.util.Collection"],
  interfaceStub "java.util.Set" ["java.util.Collection"],
  interfaceStub "java.util.Map" [],
  interfaceStub "java.util.Iterator" [],
  interfaceStub "java.util.RandomAccess" [],
  classStub "java.util.AbstractCollection" objectName ["java.util.Collection"],
  classStub "java.util.AbstractList" "java.util.AbstractCollection" ["java.util.List"],
  classStub "java.util.ArrayList" "java.util.AbstractList"
    ["java.util.List", "java.util.RandomAccess", "java.lang.Cloneable", "java.io.Serializable"],
  classStub "java.util.AbstractMap" objectName ["java.util.Map"],
  classStub "java.util.HashMap" "java.util.AbstractMap"
    ["java.util.Map", "java.lang.Cloneable", "java.io.Serializable"],
  classStub "java.util.Optional" objectName [],
  classStub "java.util.UUID" objectName ["java.io.Serializable", "java.lang.Comparable"],
  interfaceStub "java.util.function.Function" [],
  interfaceStub "java.util.function.Consumer" [],
  interfaceStub "java.util.function.Supplier" []]

def platformStub? (name : String) : Option ClassInfo := platformStubs.find? (·.name = name)

end JniHeaders
