namespace PathData
namespace Angle

def pi : Float := 3.141592653589793

def degrees (radians : Float) : Float := radians * (180.0 / pi)

def radians (degrees : Float) : Float := degrees * (pi / 180.0)

end Angle
end PathData
