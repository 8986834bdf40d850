import SerialPort.Echo

def main : IO Unit := IO.print SerialPort.Echo.output
